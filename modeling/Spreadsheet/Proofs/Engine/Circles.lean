import Mathlib.Data.List.Cycle
import Spreadsheet.Proofs.Graph.Balance
import Spreadsheet.Engine.Basic

/-! # Circles among formula texts
Cells form a **circle** if the text of each names the next one, and that of the last names the
first. The cells on the circles of some texts are the keys on the cycles of the graph built from
them. If texts without a circle are overwritten by a batch, each circle that comes about has a cell
of the batch, since the other cells name what they named before. -/

namespace Spreadsheet

section Relation

variable {α : Type} {r s : α → α → Prop} {a : α} {circle : Cycle α}

/-- An element of a circle is related to itself by the steps round the circle. -/
theorem transGen_of_mem_circle (hchain : circle.Chain r) (ha : a ∈ circle) :
    Relation.TransGen r a a := by
  induction circle using Quotient.inductionOn' with
  | _ list =>
    obtain ⟨front, back, rfl⟩ := List.append_of_mem ha
    -- turn the circle so that it starts at the element
    have hturn : ((front ++ a :: back : List α) : Cycle α) = ((a :: back ++ front : List α)) :=
      Cycle.coe_eq_coe.2 List.isRotated_append
    change Cycle.Chain r ((front ++ a :: back : List α) : Cycle α) at hchain
    rw [hturn, List.cons_append, Cycle.chain_coe_cons] at hchain
    cases hrest : (back ++ front) ++ [a] with
    | nil => simp at hrest
    | cons next rest =>
      rw [hrest, List.isChain_cons_cons] at hchain
      have hlast : (next :: rest).getLast (List.cons_ne_nil next rest) = a := by
        simp only [← hrest, List.getLast_append_singleton]
      exact .head' hchain.1
        (List.relationReflTransGen_of_exists_isChain_cons rest hchain.2 hlast)

/-- An element that is related to itself by some steps is on the circle of these steps. -/
theorem exists_circle_of_transGen (h : Relation.TransGen r a a) :
    ∃ circle : Cycle α, circle.Chain r ∧ a ∈ circle := by
  obtain ⟨next, hnext, hback⟩ := Relation.TransGen.head'_iff.1 h
  obtain ⟨rest, hchain, hlast⟩ := List.exists_isChain_cons_of_relationReflTransGen hback
  refine ⟨(a :: (next :: rest).dropLast : List α), ?_, List.mem_cons_self⟩
  have hsplit : (next :: rest).dropLast ++ [a] = next :: rest := by
    rw [← hlast, List.dropLast_append_getLast]
  rw [Cycle.chain_coe_cons, hsplit]
  exact .cons_cons hnext hchain

/-- The steps round a circle may be replaced by others between its elements. -/
theorem chain_imp_of_mem (h : ∀ a ∈ circle, ∀ b ∈ circle, r a b → s a b)
    (hchain : circle.Chain r) : circle.Chain s := by
  induction circle using Quotient.inductionOn' with
  | _ list =>
    cases list with
    | nil => exact trivial
    | cons first rest =>
      change Cycle.Chain s ((first :: rest : List α) : Cycle α)
      rw [Cycle.chain_coe_cons]
      have hmem : ∀ a ∈ first :: (rest ++ [first]), a ∈ ((first :: rest : List α) : Cycle α) := by
        intro a ha
        rw [Cycle.mem_coe_iff]
        grind
      refine List.IsChain.imp_of_mem_imp (fun a b ha hb => h a (hmem a ha) b (hmem b hb)) ?_
      exact (Cycle.chain_coe_cons r first rest).1 hchain

end Relation

namespace Batch

variable {texts batch : Batch} {reader source key : String} {circle : Cycle String}

/-- The text of a cell names a key. -/
def Names (texts : Batch) (reader source : String) : Prop :=
  ∃ text, texts[reader]? = some text ∧ source ∈ (Formula.parse text).references

/-- Each of these cells names the next one, round to the first. -/
def IsCircle (texts : Batch) (circle : Cycle String) : Prop :=
  circle ≠ .nil ∧ circle.Chain texts.Names

theorem leads_ofFormulas_iff :
    (Graph.ofFormulas texts).dependencies.Leads reader source ↔ texts.Names reader source := by
  rw [(Graph.coherent_ofFormulas texts).leads_dependencies_iff, Graph.Reads, Names]
  simp only [Graph.getElem?_table_ofFormulas, Option.map_eq_some_iff, exists_exists_and_eq_and]

/-- **The cells on the circles of some texts** are the keys on the cycles of their graph. -/
theorem exists_isCircle_iff : (∃ circle, texts.IsCircle circle ∧ key ∈ circle) ↔
    (Graph.ofFormulas texts).dependencies.OnCycle key := by
  have hleads : (Graph.ofFormulas texts).dependencies.Leads = texts.Names := by
    funext reader source
    exact propext leads_ofFormulas_iff
  rw [Edges.OnCycle, hleads]
  constructor
  · rintro ⟨circle, hcircle, hkey⟩
    exact transGen_of_mem_circle hcircle.2 hkey
  · intro h
    obtain ⟨circle, hchain, hkey⟩ := exists_circle_of_transGen h
    refine ⟨circle, ⟨?_, hchain⟩, hkey⟩
    rintro rfl
    exact Cycle.notMem_nil key hkey

/-- A circle has a cell. -/
theorem IsCircle.exists_mem (h : texts.IsCircle circle) : ∃ key, key ∈ circle := by
  obtain ⟨hne, -⟩ := h
  induction circle using Quotient.inductionOn' with
  | _ list =>
    cases list with
    | nil => exact absurd rfl hne
    | cons first rest => exact ⟨first, List.mem_cons_self⟩

/-- Two cells that name each other form a circle. -/
theorem isCircle_pair (hnames : texts.Names reader source) (hback : texts.Names source reader) :
    texts.IsCircle ([reader, source] : List String) :=
  ⟨mt (Cycle.coe_eq_nil _).1 (List.cons_ne_nil _ _),
    (Cycle.chain_coe_cons _ _ _).2 (.cons_cons hnames (.cons_cons hback (.singleton _)))⟩

/-- Texts have no circle exactly when their graph is acyclic. -/
theorem acyclic_iff :
    (Graph.ofFormulas texts).dependencies.Acyclic ↔ ∀ circle, ¬ texts.IsCircle circle := by
  constructor
  · intro hacyclic circle hcircle
    obtain ⟨key, hkey⟩ := hcircle.exists_mem
    exact hacyclic key (exists_isCircle_iff.1 ⟨circle, hcircle, hkey⟩)
  · intro hnone key hcycle
    obtain ⟨circle, hcircle, -⟩ := exists_isCircle_iff.2 hcycle
    exact hnone circle hcircle

/-- **A new circle has a cell of the batch** that closed it. -/
theorem IsCircle.exists_mem_batch (hnone : ∀ circle, ¬ texts.IsCircle circle)
    (h : (texts ∪ batch).IsCircle circle) : ∃ key ∈ circle, key ∈ batch := by
  by_contra hfree
  push Not at hfree
  -- without a cell of the batch the same circle was there before
  refine hnone circle ⟨h.1, chain_imp_of_mem (fun reader hreader _ _ hnames => ?_) h.2⟩
  obtain ⟨text, htext, hsource⟩ := hnames
  rw [Std.ExtTreeMap.getElem?_union_of_not_mem_right (hfree reader hreader)] at htext
  exact ⟨text, htext, hsource⟩

end Batch

end Spreadsheet
