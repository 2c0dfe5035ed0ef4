import Spreadsheet.Yaml.Value

/-! # Fields of resolved mappings
A mapping that resolving gives has no key twice, and neither has one inside it: no scalar and no
alias is a mapping on its own, so each is resolved from the fields of a node, which are compared
then, and its own keys and values are resolved too. So the standard reader has **distinct keys**. -/

namespace Spreadsheet.Yaml

/-- A reader has **distinct keys** if no key comes twice in a document that is a mapping, nor in a
mapping that is one of its values. -/
def Reader.HasDistinctKeys [Reader] : Prop :=
  ∀ {text : String} {fields : List (Value × Value)}, read? text = some (.mapping fields) →
    Value.areDistinct fields ∧
      ∀ key entries, (key, .mapping entries) ∈ fields → Value.areDistinct entries

namespace Value

variable {anchored : List (Nat × Node)} {depth : Nat} {node : Node} {value : Value} {s t : Nat}
  {fields : List (Value × Value)}

/-- A chain of two steps succeeds only if both do. -/
theorem exists_of_bind_eq_some {α β : Type} {x : Resolve α} {f : α → Resolve β} {b : β}
    (h : (x >>= f) s = some (b, t)) : ∃ a u, x s = some (a, u) ∧ f a u = some (b, t) := by
  obtain ⟨⟨a, u⟩, hx, hf⟩ := Option.bind_eq_some_iff.1 h
  exact ⟨a, u, hx, hf⟩

/-- What a list of steps gives is given by them one after another. -/
theorem exists_of_mem_mapM {α β : Type} {f : α → Resolve β} {list : List α} {results : List β}
    (h : list.mapM f s = some (results, t)) {b : β} (hb : b ∈ results) :
    ∃ a ∈ list, ∃ u v, f a u = some (b, v) := by
  induction list generalizing s t results with
  | nil =>
    obtain ⟨rfl, -⟩ := Prod.mk.inj (Option.some.inj h)
    exact absurd hb List.not_mem_nil
  | cons a list ih =>
    rw [List.mapM_cons] at h
    obtain ⟨first, u, hfirst, h⟩ := exists_of_bind_eq_some h
    obtain ⟨rest, v, hrest, h⟩ := exists_of_bind_eq_some h
    obtain ⟨rfl, -⟩ := Prod.mk.inj (Option.some.inj h)
    rcases List.mem_cons.1 hb with rfl | hb
    · exact ⟨a, List.mem_cons_self, s, u, hfirst⟩
    · obtain ⟨a', ha', step⟩ := ih hrest hb
      exact ⟨a', List.mem_cons_of_mem a ha', step⟩

/-- An integer is a number. -/
theorem exists_eq_number_of_ofInteger? {text : String} (h : ofInteger? text = some (some value)) :
    ∃ n, value = number n := by
  unfold ofInteger? at h
  split at h
  · split at h
    · exact ⟨_, (Option.some.inj (Option.some.inj h)).symm⟩
    · split at h
      · exact nomatch h
      · exact nomatch Option.some.inj h
  · exact nomatch Option.some.inj h

/-- A plain scalar is no mapping. -/
theorem ofPlain_ne_mapping (text : String) : ofPlain text ≠ some (mapping fields) := by
  intro h
  unfold ofPlain at h
  split at h
  · exact nomatch Option.some.inj h
  · split at h
    · exact nomatch Option.some.inj h
    · split at h
      · exact nomatch h
      · rename_i hinteger
        obtain ⟨n, rfl⟩ := exists_eq_number_of_ofInteger? hinteger
        exact nomatch Option.some.inj h
      · split at h
        · exact nomatch Option.some.inj h
        · split at h <;> exact nomatch Option.some.inj h

theorem ofUntagged_ne_mapping (plain : Bool) (text : String) :
    ofUntagged plain text ≠ some (mapping fields) := by
  cases plain with
  | false => exact fun h => nomatch Option.some.inj h
  | true => exact ofPlain_ne_mapping text

/-- **No scalar is a mapping**, whatever its tag. -/
theorem ofScalar_ne_mapping {tag : Option Tag} {plain : Bool} {text : String} :
    ofScalar tag plain text ≠ some (mapping fields) := by
  have hmap : ∀ {α : Type} {o : Option α} {f : α → Value},
      (∀ a, f a ≠ mapping fields) → o.map f ≠ some (mapping fields) := by
    intro α o f hf h
    obtain ⟨a, -, ha⟩ := Option.map_eq_some_iff.1 h
    exact hf a ha
  unfold ofScalar
  split
  · exact ofUntagged_ne_mapping plain text
  · split
    · exact hmap fun _ => nofun
    · split
      · exact hmap fun _ => nofun
      · split
        · intro h
          obtain ⟨n, hn⟩ := exists_eq_number_of_ofInteger? (Option.join_eq_some_iff.1 h)
          exact nomatch hn
        · split
          · exact hmap fun _ => nofun
          · split
            · split <;> exact nofun
            · exact ofUntagged_ne_mapping _ text

/-- A collection that is a mapping is the one that it was made of. -/
theorem eq_of_ofCollection_eq_mapping {tag : Option Tag}
    (h : ofCollection tag value = mapping fields) : value = mapping fields := by
  unfold ofCollection at h
  split at h
  · exact nomatch h
  · exact h

/-- **Where a mapping comes from.** A mapping that a node is resolved to has no key twice, and each
of its values is what a node is resolved to. -/
theorem areDistinct_of_ofNode (h : ofNode anchored depth node s = some (mapping fields, t)) :
    areDistinct fields ∧ ∀ field ∈ fields, ∃ depth' node' u v,
      ofNode anchored depth' node' u = some (field.2, v) := by
  have hscalar : ∀ {p : Properties} {plain : Bool} {text : String} {u : Nat},
      (liftM (ofScalar p.tag plain text) : Resolve Value) u ≠ some (mapping fields, t) := by
    intro p plain text u h
    obtain ⟨_, hvalue, h⟩ := Option.bind_eq_some_iff.1 h
    obtain ⟨rfl, -⟩ := Prod.mk.inj (Option.some.inj h)
    exact ofScalar_ne_mapping hvalue
  cases depth with
  | zero =>
    rw [ofNode] at h
    obtain ⟨target, u, -, h⟩ := exists_of_bind_eq_some h
    cases target with
    | scalar => exact absurd h hscalar
    | reference | sequence | mapping => exact nomatch h
  | succ depth =>
    rw [ofNode] at h
    obtain ⟨target, u, -, h⟩ := exists_of_bind_eq_some h
    cases target with
    | scalar => exact absurd h hscalar
    | reference => exact nomatch h
    | sequence p items =>
      obtain ⟨values, v, -, h⟩ := exists_of_bind_eq_some h
      exact nomatch eq_of_ofCollection_eq_mapping (Prod.mk.inj (Option.some.inj h)).1
    | mapping p nodes =>
      obtain ⟨values, v, hvalues, h⟩ := exists_of_bind_eq_some h
      split at h
      · rename_i hdistinct
        obtain ⟨hcollection, -⟩ := Prod.mk.inj (Option.some.inj h)
        obtain rfl := mapping.inj (eq_of_ofCollection_eq_mapping hcollection)
        refine ⟨hdistinct, fun field hfield => ?_⟩
        obtain ⟨⟨key, content⟩, -, w, w', hstep⟩ := exists_of_mem_mapM hvalues hfield
        obtain ⟨first, w'', -, hstep⟩ := exists_of_bind_eq_some hstep
        obtain ⟨second, w''', hsecond, hstep⟩ := exists_of_bind_eq_some hstep
        obtain ⟨rfl, -⟩ := Prod.mk.inj (Option.some.inj hstep)
        exact ⟨depth, content, w'', w''', hsecond⟩
      · exact nomatch h

/-- **The standard reader has distinct keys.** -/
theorem hasDistinctKeys : Reader.HasDistinctKeys := by
  intro text fields h
  obtain ⟨source, -, h⟩ := Option.bind_eq_some_iff.1 h
  obtain ⟨tokens, -, h⟩ := Option.bind_eq_some_iff.1 h
  obtain ⟨root, -, h⟩ := Option.bind_eq_some_iff.1 h
  obtain ⟨⟨_, left⟩, hroot, rfl⟩ := Option.map_eq_some_iff.1 h
  obtain ⟨hdistinct, hvalues⟩ := areDistinct_of_ofNode hroot
  refine ⟨hdistinct, fun key entries hmem => ?_⟩
  obtain ⟨_, _, _, _, hentries⟩ := hvalues _ hmem
  exact (areDistinct_of_ofNode hentries).1

/-! ## Keys that are texts -/

/-- The value of a text is one of the fields. -/
theorem mem_of_field? {name : String} (h : field? fields name = some value) :
    (string name, value) ∈ fields := by
  obtain ⟨⟨key, content⟩, hmem, h⟩ := List.exists_of_findSome?_eq_some h
  cases key with
  | string s =>
    obtain ⟨rfl, hcontent⟩ := Option.ite_none_right_eq_some.1 h
    exact Option.some.inj hcontent ▸ hmem
  | null | bool | number | sequence | mapping | tagged => exact nomatch h

theorem areDistinct_iff :
    areDistinct fields ↔ (fields.map (·.1)).Pairwise fun key other => key.same other = false := by
  induction fields with
  | nil => simp [areDistinct]
  | cons field fields ih => simp [areDistinct, ih]

/-- Texts are the same key only if they are equal. -/
theorem nodup_of_areDistinct {names : List String} (hnames : fields.map (·.1) = names.map string)
    (h : areDistinct fields) : names.Nodup := by
  rw [areDistinct_iff, hnames, List.pairwise_map] at h
  exact h.imp fun hsame heq => by simp [same, heq] at hsame

end Value

end Spreadsheet.Yaml
