import BoxSearch.Refusal

/-!
# Logging — records that are written or dropped

All loggers of the package hang below one, which has a level and a handler. A record is written if
its level is at least the effective one, laid out by the handler and sent to the handler's target.
A handler is replaced before a level is set, so that a refused level leaves the new handler behind,
and a refused layout leaves none. A logger that finds no handler installs one of its own, whose
lines nobody collects.
-/

namespace BoxSearch

/-! ## 1. Levels -/

namespace LogLevel

/-- The named levels, the first name of a level being the one that is written. -/
def table : List (String × Int) :=
  [("CRITICAL", 50), ("FATAL", 50), ("ERROR", 40), ("WARNING", 30), ("WARN", 30), ("INFO", 20),
    ("DEBUG", 10), ("NOTSET", 0)]

/-- The level from which on records are written when nothing else is said. -/
def warning : Int := 30

def name (level : Int) : String :=
  match table.find? fun entry => entry.2 == level with
  | some (word, _) => word
  | none => "Level " ++ toString level

def nameOf : Setting → Int → String
  -- A raised flag stands for no named level.
  | .flag true, _ => "Level " ++ (Setting.flag true).shown
  | _, k => name k

/-- A level given by its name, without regard to case, or by its number. -/
def read : Setting → Except Refusal Int
  | .whole k => .ok k
  | .flag b => .ok b.toNat
  | .text s =>
    match table.lookup (Text.upper s) with
    | some k => .ok k
    | none => .error .unknownWord
  | _ => .error .levelNotNamed

def readNumber : Setting → Except Refusal Int
  | .whole k => .ok k
  | .flag b => .ok b.toNat
  | _ => .error .levelNotNamed

end LogLevel

/-! ## 2. Layouts -/

/-- A part of the line that is written for a record. -/
inductive LayoutPart where
  | literal (c : Char)
  | message
  | level
  | logger
  deriving DecidableEq, Repr

/-- How the line for a record is put together. -/
abbrev Layout := List LayoutPart

namespace Layout

def fields : List (List Char × LayoutPart) :=
  [("%(message)s".toList, .message), ("%(levelname)s".toList, .level),
    ("%(name)s".toList, .logger), ("%%".toList, .literal '%')]

/-- The field that a text starts with, and the number of its characters. -/
def field? (cs : List Char) : Option (LayoutPart × Nat) :=
  (fields.find? fun entry => entry.1.isPrefixOf cs).map fun entry => (entry.2, entry.1.length)

def ofChars : (skip : Nat) → List Char → Layout
  | _, [] => []
  | skip + 1, _ :: rest => ofChars skip rest
  | 0, c :: rest =>
    match field? (c :: rest) with
    | some (part, length) => part :: ofChars (length - 1) rest
    | none => .literal c :: ofChars 0 rest

/-- Whether the text of a field that depends on the record occurs. -/
def namesField : List Char → Bool
  | [] => false
  | c :: rest =>
    -- A doubled percent sign in front of the field does not hide it.
    fields.any (fun entry => entry.2 != .literal '%' && entry.1.isPrefixOf (c :: rest)) ||
      namesField rest

def standard : Layout := ofChars 0 "[%(levelname)s] %(name)s: %(message)s".toList

/-- A layout as it is given; the standard one if nothing is. -/
def read : Setting → Except Refusal Layout
  | .text s =>
    if s.isEmpty then .ok standard
    else if namesField s.toList then .ok (ofChars 0 s.toList)
    else .error .emptyLayout
  | s => if s.isTruthy then .error .layoutNotText else .ok standard

/-- The text of a part, given the name of the record's level. -/
def partText (levelName : String) (r : LogRecord) : LayoutPart → String
  | .literal c => c.toString
  | .message => r.text
  | .level => levelName
  | .logger => r.logger

def line (layout : Layout) (levelName : String) (r : LogRecord) : String :=
  String.join (layout.map (partText levelName r))

end Layout

/-! ## 3. The hub -/

/-- Where lines are sent. -/
inductive LogTarget where
  | buffer
  | errors
  -- Nobody collects the lines.
  | unseen
  deriving DecidableEq, Repr

/-- A handler. -/
structure LogHandler where
  target : LogTarget
  layout : Layout

/-- The logger on top of the package, with the lines written so far. -/
structure LogHub where
  -- Level zero stands for the level of the root.
  level : Int := LogLevel.warning
  handler : Option LogHandler := some ⟨.buffer, .standard⟩
  buffer : List String := []
  errors : List String := []

/-- What a logger says about itself. -/
structure LoggerView where
  name : String
  isTop : Bool
  level : Int
  deriving Repr

namespace LogHub

def top : String := "metaheur"

/-- A hub without a handler gets the standard one, and with it the standard level. -/
def withHandler (h : LogHub) : LogHub :=
  match h.handler with
  | some _ => h
  | none => { h with level := LogLevel.warning, handler := some ⟨.unseen, .standard⟩ }

def effectiveLevel (h : LogHub) : Int := if h.level = 0 then LogLevel.warning else h.level

/-- The full name of a logger: names outside the package are put below its top. -/
def fullName : Setting → Except Refusal String
  | .null => .ok top
  | .text s => .ok (if s = top ∨ (top ++ ".").isPrefixOf s then s else top ++ "." ++ s)
  | _ => .error .nameNotText

def get (h : LogHub) (name : Setting) : Except Refusal LoggerView × LogHub :=
  let h := h.withHandler
  ((fullName name).map fun full => ⟨full, full == top, h.effectiveLevel⟩, h)

def setLevel (h : LogHub) (level : Setting) : Except Refusal Unit × LogHub :=
  let h := h.withHandler
  match LogLevel.read level with
  | .ok k => (.ok (), { h with level := k })
  | .error e => (.error e, h)

def configure (h : LogHub) (target : LogTarget) (level layout : Setting) :
    Except Refusal Unit × LogHub :=
  let h := { h.withHandler with handler := none }
  match Layout.read layout with
  | .ok layout => setLevel { h with handler := some ⟨target, layout⟩ } level
  | .error e => (.error e, h)

def write (h : LogHub) (target : LogTarget) (line : String) : LogHub :=
  match target with
  | .buffer => { h with buffer := h.buffer ++ line.splitOn "\n" }
  | .errors => { h with errors := h.errors ++ line.splitOn "\n" }
  | .unseen => h

/-- Writes a record if its level, which goes by the given name, is high enough. -/
def emitAs (h : LogHub) (levelName : String) (r : LogRecord) : LogHub :=
  match h.withHandler.handler with
  | some handler =>
    if h.withHandler.effectiveLevel ≤ r.level then
      h.withHandler.write handler.target (handler.layout.line levelName r)
    else h.withHandler
  | none => h.withHandler

def emit (h : LogHub) (r : LogRecord) : LogHub := h.emitAs (LogLevel.name r.level) r

def log (h : LogHub) (name level : Setting) (text : String) : Except Refusal Unit × LogHub :=
  let record := do
    let logger ← fullName name
    return (⟨← LogLevel.readNumber level, logger, text⟩ : LogRecord)
  match record with
  | .ok r => (.ok (), h.emitAs (LogLevel.nameOf level r.level) r)
  | .error e => (.error e, h.withHandler)

def collecting (level : Setting) : Except Refusal LogHub :=
  match configure {} .buffer level .null with
  | (.ok (), h) => .ok h
  | (.error e, _) => .error e

def linesOf (h : LogHub) (records : List LogRecord) : List String :=
  (records.foldl emit h).buffer

end LogHub

end BoxSearch
