import TapeEvolution.Fault

/-!
Where events are shown: nowhere at first, and from the first successful setup on, in one place and
format. Later setups are examined but change nothing.
-/

namespace TapeEvolution

/-- The least rank of the events that are shown, and the formats in which they are. -/
structure Console where
  rank : Nat
  formats : List String
deriving DecidableEq, Repr

namespace Console

/-- The console before any setup. -/
def silent : Console := ⟨30, []⟩

def ranks : List (String × Nat) :=
  [("CRITICAL", 50), ("FATAL", 50), ("ERROR", 40), ("WARNING", 30), ("WARN", 30), ("INFO", 20),
    ("DEBUG", 10), ("NOTSET", 0)]

/-- A letter in upper case, as far as that is an ASCII letter. Other letters spell no rank and stay
    as they are. -/
def upper (c : Char) : Char :=
  if c = 'ı' then 'I' else if c = 'ſ' then 'S' else c.toUpper

/-- The rank of a name in upper or lower case. -/
def rankOf? (name : String) : Option Nat :=
  ranks.lookup (String.ofList (name.toList.map upper))

def standardFormat : String := "%(asctime)s - %(name)s - %(levelname)s - %(message)s"

/-- The rank that a setup takes if it is given none. -/
def standardRank : String := "INFO"

/-- Show events from a rank on, unless they are shown already. -/
def setup {S : Type} (console : Console) (name : String) : Except (Fault S) Console :=
  match rankOf? name with
  | none => .error .unknownLevel
  | some rank => .ok (if console.formats.isEmpty then ⟨rank, [standardFormat]⟩ else console)

end Console

end TapeEvolution
