import CommandWords.Log.Event
import CommandWords.Text.Digits

/-!
# Log directives

A directive says which events are logged. It is a list of rules with commas between; a rule sets a
threshold for the targets that begin with a given text. The rule with the longest such text
decides about an event, and of two rules for one text the later. An event that no rule speaks of is
not logged.
-/

namespace CommandWords.Log

/-- How severe an event must be to be logged. -/
inductive Threshold where
  /-- No event is severe enough. -/
  | off
  /-- Events at least as severe as the level. -/
  | atLeast (level : Level)
deriving DecidableEq, Repr

/-- Whether an event of a level is severe enough. -/
def Threshold.admits : Threshold → Level → Bool
  | .off, _ => false
  | .atLeast least, level => level.rank ≤ least.rank

/-- A threshold for the targets that begin with a text. -/
structure Rule where
  target : Text
  threshold : Threshold
deriving DecidableEq, Repr

/-- The names of the thresholds. The number that stands for a threshold is its place here. -/
def thresholds : List (Text × Threshold) := [
  ("off".toList, .off), ("error".toList, .atLeast .error), ("warn".toList, .atLeast .warn),
  ("info".toList, .atLeast .info), ("debug".toList, .atLeast .debug),
  ("trace".toList, .atLeast .trace)]

/-- The threshold with a given number, which may have a plus sign and zeros before it. -/
def Threshold.numbered? (number : Text) : Option Threshold :=
  let digits := if number.head? = some '+' then number.tail else number
  if digits.isEmpty || !digits.all Char.isDigit then none
  else thresholds[baseValue 10 digits]?.map (·.2)

/-- The threshold with a given name in any letter case, or with a given number. -/
def Threshold.named? (name : Text) : Option Threshold :=
  (thresholds.lookup (name.map Char.toLower)).or (Threshold.numbered? name)

/-- Whether an item of a directive may begin with a character. Characters beyond ASCII are not told
apart: no event has a target that begins with one, so a rule for it decides nothing. -/
def isItemStart (c : Char) : Bool :=
  c.isAlphanum || c == '-' || c == ':' || c == '_' || 0x80 ≤ c.toNat

/-- The rule that an item of a directive gives: a bare threshold is for all targets, and a target
alone or with nothing behind the equals sign is logged completely. -/
def Rule.parse? (item : Text) : Option Rule :=
  let target := item.takeWhile (· != '=')
  if !target.head?.any isItemStart then none
  else
    match item.dropWhile (· != '=') with
    | [] =>
      match Threshold.named? item with
      | some threshold => some ⟨[], threshold⟩
      | none => some ⟨item, .atLeast .trace⟩
    | [_] => some ⟨target, .atLeast .trace⟩
    | _ :: name => (Threshold.named? name).map (⟨target, ·⟩)

/-- The rules of a directive; an item that gives none is passed over. Without any rule, errors are
logged. -/
def rules (directive : Text) : List Rule :=
  match (directive.splitOn ',').filterMap Rule.parse? with
  | [] => [⟨[], .atLeast .error⟩]
  | rules => rules

/-- The rule that decides about a target. -/
def deciding? (rules : List Rule) (target : Text) : Option Rule :=
  rules.foldl
    (fun best rule =>
      if rule.target.isPrefixOf target then
        match best with
        | none => some rule
        | some old => if old.target.length ≤ rule.target.length then some rule else some old
      else best)
    none

/-- Whether a directive asks for an event. -/
def admits (directive : Text) (event : Event) : Bool :=
  match deciding? (rules directive) event.target with
  | none => false
  | some rule => rule.threshold.admits event.level

/-- The lines that are logged of some events; without a directive, none. -/
def lines (directive : Option Text) (events : List Event) : Text :=
  match directive with
  | none => []
  | some directive => (events.filter (admits directive)).flatMap Event.line

end CommandWords.Log
