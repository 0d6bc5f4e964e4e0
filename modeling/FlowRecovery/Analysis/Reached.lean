import Std.Data.HashMap
import FlowRecovery.Label

/-!
# Reached states

The states that were reached are kept by their label, in the order in which they were reached,
without repetition.
-/

namespace FlowRecovery

/-- Descriptions of the states of a program at a label. -/
class Located (S : Type) where
  location : S → Label
  same : S → S → Bool

/-- The states that were reached. -/
structure Reached (S : Type) where
  table : Std.HashMap Label (List S) := {}
  size : Nat := 0

namespace Reached

variable {S : Type} [Located S]

instance : Inhabited (Reached S) := ⟨{}⟩

def at_ (r : Reached S) (l : Label) : List S := (r.table[l]?).getD []

def contains (r : Reached S) (s : S) : Bool := (r.at_ (Located.location s)).any (Located.same s)

def insert (r : Reached S) (s : S) : Reached S :=
  if r.contains s then r
  else { table := r.table.insert (Located.location s) (r.at_ (Located.location s) ++ [s]), size := r.size + 1 }

def erase (r : Reached S) (s : S) : Reached S :=
  if r.contains s then
    { table := r.table.insert (Located.location s)
        ((r.at_ (Located.location s)).filter (fun t => !Located.same s t)), size := r.size - 1 }
  else r

end Reached

/-- The reached states at a label, or all of them if there is none. Whether a state belongs to a
view is asked of all reached states. -/
structure Reached.View (S : Type) where
  reached : Reached S
  label : Option Label := none

namespace Reached.View

variable {S : Type} [Located S]

def toList (v : View S) : List S :=
  match v.label with
  | some l => v.reached.at_ l
  | none => v.reached.table.toList.flatMap Prod.snd

def size (v : View S) : Nat :=
  match v.label with
  | some l => (v.reached.at_ l).length
  | none => v.reached.size

def contains (v : View S) (s : S) : Bool := v.reached.contains s

def parts {T : Type} (v : View S) (part : S → T) : List T := v.toList.map part

end Reached.View

end FlowRecovery
