import Mathlib.Data.List.Infix
import SphereFx.Base.Regex

/-!
# What the groups of a match capture

A group captures a stretch of the text, and what the stretch can be is told by the expression in the
group. Both carry over from the matches at one place to what a search and a scan find.
-/

namespace SphereFx

namespace Re

/-- What the groups of the expression capture has the property. -/
def Captures (P : Nat → List Char → Prop) : Re → Prop
  | seq a b => a.Captures P ∧ b.Captures P
  | alt a b => a.Captures P ∧ b.Captures P
  | group i r => r.Captures P ∧ ∀ before text, ∀ h ∈ r.run before text, P i h.taken
  | _ => True

variable {P : Nat → List Char → Prop}

theorem captures_seqs {rs : List Re} (h : ∀ r ∈ rs, r.Captures P) : (seqs rs).Captures P := by
  induction rs with
  | nil => exact trivial
  | cons r rest ih =>
      obtain ⟨hr, hrest⟩ := List.forall_mem_cons.mp h
      cases rest with
      | nil => exact hr
      | cons s more => exact ⟨hr, ih hrest⟩

theorem captures_alts {rs : List Re} (h : ∀ r ∈ rs, r.Captures P) : (alts rs).Captures P := by
  induction rs with
  | nil => exact trivial
  | cons r rest ih =>
      obtain ⟨hr, hrest⟩ := List.forall_mem_cons.mp h
      cases rest with
      | nil => exact hr
      | cons s more => exact ⟨hr, ih hrest⟩

theorem captures_literal (same : Char → Char → Bool) (text : List Char) :
    (literal same text).Captures P := by
  apply captures_seqs
  intro r hr
  obtain ⟨c, -, rfl⟩ := List.mem_map.mp hr
  exact trivial

/-- A match at a place captures stretches of what it takes, each with the property. -/
theorem captured_of_mem_run {r : Re} (hr : r.Captures P) {before : Option Char} {text : List Char}
    {h : Hit} (hmem : h ∈ r.run before text) : ∀ g ∈ h.groups, g.2 <:+: h.taken ∧ P g.1 g.2 := by
  induction r generalizing before text h with
  | empty =>
      rw [List.mem_singleton.mp hmem]
      exact List.forall_mem_nil _
  | cls p =>
      cases text with
      | nil => cases hmem
      | cons c rest =>
          rw [run] at hmem
          split at hmem
          · rw [List.mem_singleton.mp hmem]
            exact List.forall_mem_nil _
          · cases hmem
  | boundary =>
      rw [run] at hmem
      split at hmem
      · rw [List.mem_singleton.mp hmem]
        exact List.forall_mem_nil _
      · cases hmem
  | seq a b iha ihb =>
      obtain ⟨first, hfirst, hmap⟩ := List.mem_flatMap.mp hmem
      obtain ⟨second, hsecond, rfl⟩ := List.mem_map.mp hmap
      intro g hg
      rcases List.mem_append.mp hg with hg | hg
      · obtain ⟨hstretch, hP⟩ := ihb hr.2 hsecond g hg
        exact ⟨hstretch.trans (List.suffix_append _ _).isInfix, hP⟩
      · obtain ⟨hstretch, hP⟩ := iha hr.1 hfirst g hg
        exact ⟨hstretch.trans (List.prefix_append _ _).isInfix, hP⟩
  | alt a b iha ihb => exact (List.mem_append.mp hmem).elim (iha hr.1) (ihb hr.2)
  | many p greedy =>
      rw [(mem_runMany hmem).2.2]
      exact List.forall_mem_nil _
  | group i r ih =>
      obtain ⟨inner, hinner, rfl⟩ := List.mem_map.mp hmem
      exact List.forall_mem_cons.mpr ⟨⟨List.infix_rfl, hr.2 before text inner hinner⟩, ih hr.1 hinner⟩

/-- What a group of a match has captured stands in the text. -/
theorem Occurs.submatch {r : Re} {text : List Char} {h : Hit} (ho : r.Occurs text h)
    (hr : r.Captures P) (i : Nat) :
    h.submatch i <:+: text ∧ (h.submatch i ≠ [] → P i (h.submatch i)) := by
  obtain ⟨before, front, place, rfl, hmem⟩ := ho
  unfold Hit.submatch
  cases hlookup : h.groups.lookup i with
  | none => exact ⟨List.nil_infix, fun hne => absurd rfl hne⟩
  | some captured =>
      have hgroup : (i, captured) ∈ h.groups := by
        obtain ⟨first, rest, hgroups, -⟩ := List.lookup_eq_some_iff.mp hlookup
        rw [hgroups]
        exact List.mem_append_right _ List.mem_cons_self
      obtain ⟨hstretch, hP⟩ := captured_of_mem_run hr hmem _ hgroup
      have hplace : place = h.taken ++ h.rest := eq_append_of_mem_run hmem
      refine ⟨hstretch.trans ?_, fun _ => hP⟩
      rw [hplace]
      exact ⟨front, h.rest, List.append_assoc _ _ _⟩

theorem occurs_of_find {r : Re} {text : List Char} {h : Hit} (hfind : r.find text = some h) :
    r.Occurs text h := by
  obtain ⟨⟨skipped, k⟩, hsearch, rfl⟩ := Option.map_eq_some_iff.mp hfind
  obtain ⟨place, htext, hmem⟩ := search_eq_some hsearch
  exact ⟨_, skipped, place, htext, hmem⟩

theorem occurs_of_mem_findAll {r : Re} {text : List Char} {h : Hit} (hmem : h ∈ r.findAll text) :
    r.Occurs text h := by
  obtain ⟨piece, hpiece, rfl⟩ := List.mem_map.mp hmem
  exact occurs_of_mem_scanFrom hpiece

end Re

/-! ### The parts between separators -/

theorem infix_of_mem_splitOnP {α : Type} {p : α → Bool} {part items : List α}
    (h : part ∈ items.splitOnP p) : part <:+: items := by
  have hsplit : ∀ items : List α, ∃ first rest, items.splitOnP p = first :: rest ∧
      first <+: items ∧ ∀ part ∈ rest, part <:+: items := by
    intro items
    induction items with
    | nil => exact ⟨[], [], rfl, List.nil_prefix, List.forall_mem_nil _⟩
    | cons a more ih =>
        obtain ⟨first, rest, heq, hfirst, hrest⟩ := ih
        have hlater : ∀ part ∈ rest, part <:+: a :: more :=
          fun part hpart => (hrest part hpart).trans (List.suffix_cons a more).isInfix
        rw [List.splitOnP_cons_eq_if_modifyHead, heq]
        split
        · refine ⟨[], first :: rest, rfl, List.nil_prefix, List.forall_mem_cons.mpr ⟨?_, hlater⟩⟩
          exact hfirst.isInfix.trans (List.suffix_cons a more).isInfix
        · exact ⟨a :: first, rest, rfl, List.cons_prefix_cons.mpr ⟨rfl, hfirst⟩, hlater⟩
  obtain ⟨first, rest, heq, hfirst, hrest⟩ := hsplit items
  rw [heq] at h
  rcases List.mem_cons.mp h with rfl | hlater
  · exact hfirst.isInfix
  · exact hrest part hlater

end SphereFx
