/-!
# Journals

What a service writes down while it works. Details are for those who look for errors in it.
-/

namespace FlowRecovery

/-- How important an entry is. -/
inductive Importance where
  | detail
  | progress

/-- An entry of a journal. -/
structure Entry where
  importance : Importance
  text : String

abbrev Journal := List Entry

namespace Importance

def rank : Importance → Nat
  | detail => 10
  | progress => 20

end Importance

def Journal.texts (threshold : Nat) (j : Journal) : List String :=
  (j.filter (fun e => threshold ≤ e.importance.rank)).map Entry.text

def Journal.details (texts : List String) : Journal := texts.map (⟨.detail, ·⟩)

end FlowRecovery
