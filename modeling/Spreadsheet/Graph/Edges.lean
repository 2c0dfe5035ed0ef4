import Std.Data.ExtTreeMap
import Std.Data.ExtTreeSet

/-! # Edges between keys
A map from keys to lists of keys, and the search along it. **Exploring** from a list of keys visits
every key that can be reached, nearest first and each once; it ends on every map, cycles included,
because each step either shortens the queue or uses up a key of the map. A key is **on a cycle** if
it is reached from its own targets. Maps from keys are kept in ascending key order, which is the
order of their UTF-8 bytes. -/

namespace Spreadsheet

/-- A finite map from keys, in ascending key order. -/
abbrev KeyMap (α : Type) := Std.ExtTreeMap String α

/-- A finite set of keys, in ascending order. -/
abbrev KeySet := Std.ExtTreeSet String

/-- For each key a list of keys; a key without an entry has none. -/
abbrev Edges := KeyMap (List String)

namespace Edges

/-- The keys that a key leads to, in the order they are listed. -/
def targets (edges : Edges) (key : String) : List String := (edges[key]?).getD []

/-- The keys with an entry that are not in a set. -/
def unseen (edges : Edges) (seen : KeySet) : Nat :=
  edges.keys.countP fun key => !seen.contains key

theorem targets_of_not_mem {edges : Edges} {key : String} (h : key ∉ edges) :
    edges.targets key = [] := by
  simp [targets, Std.ExtTreeMap.getElem?_eq_none h]

theorem unseen_insert_le (edges : Edges) (seen : KeySet) (key : String) :
    edges.unseen (seen.insert key) ≤ edges.unseen seen :=
  List.countP_mono_left fun k _ => by simp

theorem countP_lt_countP {p q : String → Bool} {l : List String} {a : String}
    (hpq : ∀ x ∈ l, p x → q x) (ha : a ∈ l) (hp : p a = false) (hq : q a = true) :
    l.countP p < l.countP q := by
  obtain ⟨s, t, rfl⟩ := List.append_of_mem ha
  have hs := List.countP_mono_left (l := s) fun x hx => hpq x (by simp [hx])
  have ht := List.countP_mono_left (l := t) fun x hx => hpq x (by simp [hx])
  simp only [List.countP_append, List.countP_cons, hp, hq]
  simp only [Bool.false_eq_true, if_false, if_true]
  omega

theorem unseen_insert_lt {edges : Edges} {seen : KeySet} {key : String}
    (hkey : key ∈ edges) (hseen : key ∉ seen) :
    edges.unseen (seen.insert key) < edges.unseen seen :=
  countP_lt_countP (a := key) (fun k _ => by simp)
    (Std.ExtTreeMap.mem_keys.2 hkey) (by simp)
    (by rw [Bool.not_eq_true', ← Bool.not_eq_true, Std.ExtTreeSet.contains_iff_mem]; exact hseen)

/-- The keys reached from a queue of keys, nearest first and each once, without the keys already
seen and those reached only through them. -/
def explore (edges : Edges) (seen : KeySet) : List String → List String
  | [] => []
  | key :: queue =>
    if key ∈ seen then edges.explore seen queue
    else key :: edges.explore (seen.insert key) (queue ++ edges.targets key)
termination_by queue => (edges.unseen seen, queue.length)
decreasing_by
  · exact Prod.Lex.right _ (by simp)
  · rename_i hseen
    by_cases hkey : key ∈ edges
    · exact Prod.Lex.left _ _ (unseen_insert_lt hkey hseen)
    · rcases Nat.lt_or_eq_of_le (unseen_insert_le edges seen key) with h | h
      · exact Prod.Lex.left _ _ h
      · rw [h, targets_of_not_mem hkey]
        exact Prod.Lex.right _ (by simp)

/-- The keys reached from a list of keys, the list itself included, nearest first and each
once. -/
def reachable (edges : Edges) (roots : List String) : List String :=
  edges.explore ∅ roots

/-- The keys other than a key itself that are reached from it, nearest first and each once. -/
def beyond (edges : Edges) (key : String) : List String :=
  edges.explore {key} (edges.targets key)

/-- The keys that lie on a cycle, in ascending order. -/
def cycleMembers (edges : Edges) : List String :=
  edges.keys.filter fun key => key ∈ edges.reachable (edges.targets key)

end Edges

end Spreadsheet
