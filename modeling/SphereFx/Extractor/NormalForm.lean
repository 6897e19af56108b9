import SphereFx.Extractor.Formatting

/-!
# What cleaning leaves

The steps of `Clean` run once each, in an order in which no later one undoes what an earlier one did to
emoji, fancy letters and white space. Markup, tags and entities can come back: an entity may decode
to the characters of another.
-/

namespace SphereFx.Extractor

open Text

attribute [local instance] decidableBAllChar

/-! ### Removing and replacing -/

theorem replaceAll_sublist (r : Re) (text : List Char) : (r.replaceAll [] text).Sublist text := by
  have hpieces : ∀ pieces : List (List Char × Hit),
      (pieces.flatMap fun piece => piece.1 ++ []).Sublist
        (pieces.flatMap fun piece => piece.1 ++ piece.2.taken) := by
    intro pieces
    induction pieces with
    | nil => exact List.Sublist.refl []
    | cons piece rest ih =>
        rw [List.flatMap_cons, List.flatMap_cons]
        exact ((List.nil_sublist _).append_left piece.1).append ih
  have hjoined := Re.joined_scanFrom r (text.length + 1) none false text
  conv_rhs => rw [← hjoined]
  exact (hpieces _).append (List.Sublist.refl _)

private theorem mem_of_afterPrefix? {old text rest : List Char} (h : afterPrefix? old text = some rest) {c : Char}
    (hc : c ∈ rest) : c ∈ text := by
  induction old generalizing text with
  | nil =>
      rw [afterPrefix?] at h
      exact Option.some.inj h ▸ hc
  | cons d more ih =>
      cases text with
      | nil => cases h
      | cons e text =>
          rw [afterPrefix?] at h
          split at h
          · exact List.mem_cons_of_mem e (ih h)
          · cases h

/-- A character of the result stood in the text or belongs to a new string. -/
private theorem mem_replacePairs {pairs : List (List Char × List Char)} {fuel : Nat} {text : List Char} {c : Char}
    (h : c ∈ replacePairs pairs fuel text) : c ∈ text ∨ ∃ pair ∈ pairs, c ∈ pair.2 := by
  induction fuel generalizing text with
  | zero => exact .inl h
  | succ fuel ih =>
      cases text with
      | nil => cases h
      | cons d rest =>
          rw [replacePairs] at h
          cases hfirst : firstReplacement pairs (d :: rest) with
          | none =>
              rw [hfirst] at h
              rcases List.mem_cons.mp h with rfl | h
              · exact .inl List.mem_cons_self
              · exact (ih h).imp_left (List.mem_cons_of_mem d)
          | some found =>
              obtain ⟨new, after⟩ := found
              obtain ⟨pair, hpair, hprefix⟩ := List.exists_of_findSome?_eq_some hfirst
              obtain ⟨rest', hrest, heq⟩ := Option.map_eq_some_iff.mp hprefix
              obtain ⟨rfl, rfl⟩ := Prod.mk.inj heq
              rw [hfirst] at h
              rcases List.mem_append.mp h with hnew | hafter
              · exact .inr ⟨pair, hpair, hnew⟩
              · exact (ih hafter).imp_left (mem_of_afterPrefix? hrest)

/-! ### Emoji and fancy letters -/

private theorem images_ascii : ∀ run ∈ fancyRuns, ∀ k ∈ List.range run.2.1,
    (Char.ofNat (run.2.2.toNat + k)).toNat < 128 := by
  decide +kernel

theorem ascii_of_fancy {c d : Char} (h : fancy? c = some d) : d.toNat < 128 := by
  obtain ⟨⟨first, length, image⟩, hrun, himage⟩ := List.exists_of_findSome?_eq_some h
  simp only [Option.ite_none_right_eq_some, Option.some.injEq] at himage
  obtain ⟨⟨hfirst, hlast⟩, rfl⟩ := himage
  exact images_ascii _ hrun (c.toNat - first) (List.mem_range.mpr (by simp only; omega))

private theorem fancy?_normalized (c : Char) : fancy? (normalized c) = none := by
  rw [normalized]
  cases hfancy : fancy? c with
  | none => exact hfancy
  | some d => exact fancy?_eq_none (ascii_of_fancy hfancy)

private theorem isEmoji_normalized {c : Char} (h : isEmoji c = false) : isEmoji (normalized c) = false := by
  rw [normalized]
  cases hfancy : fancy? c with
  | none => exact h
  | some d => exact isEmoji_eq_false (ascii_of_fancy hfancy)

private theorem entities_not_emoji : ∀ pair ∈ htmlEntities, ∀ c ∈ pair.2, isEmoji c = false := by
  decide +kernel

/-! ### White space -/

section Squeeze

variable {α : Type} {p : α → Bool} {d : α}

private theorem eq_of_mem_squeeze {after : Bool} {l : List α} {c : α} (h : c ∈ squeeze p d after l)
    (hc : p c = true) : c = d := by
  induction l generalizing after with
  | nil => cases h
  | cons e rest ih =>
      rw [squeeze] at h
      split at h
      · split at h
        · exact ih h
        · rcases List.mem_cons.mp h with h | h
          · exact h
          · exact ih h
      · next he =>
        rcases List.mem_cons.mp h with rfl | h
        · exact absurd hc he
        · exact ih h

private theorem isChain_squeeze (after : Bool) (l : List α) :
    (squeeze p d after l).IsChain (fun a b => ¬ (p a = true ∧ p b = true)) ∧
      (after = true → ∀ c ∈ (squeeze p d after l).head?, p c = false) := by
  induction l generalizing after with
  | nil => exact ⟨List.IsChain.nil, fun _ c hc => by cases hc⟩
  | cons e rest ih =>
      rw [squeeze]
      split
      · split
        · next hafter => exact ⟨(ih true).1, fun _ => (ih true).2 rfl⟩
        · next hafter =>
          refine ⟨?_, fun h => absurd h hafter⟩
          rw [List.isChain_cons]
          refine ⟨fun c hc hboth => ?_, (ih true).1⟩
          rw [(ih true).2 rfl c hc] at hboth
          exact Bool.false_ne_true hboth.2
      · next he =>
        refine ⟨?_, fun _ c hc => ?_⟩
        · rw [List.isChain_cons]
          exact ⟨fun c _ hboth => he hboth.1, (ih false).1⟩
        · rw [List.head?_cons, Option.mem_some_iff] at hc
          exact hc ▸ by simpa using he

end Squeeze

private theorem tidy_spaced (text : List Char) :
    SingleSpaced (tidy isWhite Re.isSpace ' ' text) ∧
      (∀ c ∈ (tidy isWhite Re.isSpace ' ' text).head?, isWhite c = false) ∧
      ∀ c ∈ (tidy isWhite Re.isSpace ' ' text).getLast?, isWhite c = false := by
  obtain ⟨lead, trail, hsplit, -, -, hfirst, hlast⟩ := exists_trim isWhite (squeeze Re.isSpace ' ' false text)
  refine ⟨⟨?_, ?_⟩, hfirst, hlast⟩
  · have hchain := (@isChain_squeeze Char Re.isSpace ' ' false text).1
    rw [hsplit, List.isChain_append] at hchain
    exact (List.isChain_append.mp hchain.2.1).1
  · intro c hc hspace
    apply @eq_of_mem_squeeze Char Re.isSpace ' ' false text c _ hspace
    rw [hsplit]
    exact List.mem_append_right lead (List.mem_append_left trail hc)

private theorem mem_of_tidy {text : List Char} {c : Char} (h : c ∈ tidy isWhite Re.isSpace ' ' text) :
    c ∈ text ∨ c = ' ' := by
  obtain ⟨lead, trail, hsplit, -⟩ := exists_trim isWhite (squeeze Re.isSpace ' ' false text)
  apply @mem_squeeze Char Re.isSpace ' ' false text c
  rw [hsplit]
  exact List.mem_append_right lead (List.mem_append_left trail h)

/-! ### Cleaned texts -/

/-- A text in which the passes find nothing to do, but perhaps markup, tags and entities. -/
structure Cleaned (text : List Char) : Prop where
  spaced : SingleSpaced text
  first : ∀ c ∈ text.head?, isWhite c = false
  last : ∀ c ∈ text.getLast?, isWhite c = false
  emoji : ∀ c ∈ text, isEmoji c = false
  plain : ∀ c ∈ text, fancy? c = none

theorem cleaned_clean (raw : List Char) : Cleaned (clean raw) := by
  rw [clean_eq]
  obtain ⟨hspaced, hfirst, hlast⟩ := tidy_spaced (normalizeFancy (replaceHTMLEntities
    (htmlTagRegex.replaceAll [] (markupRegex.replaceAll [] (raw.filter (!isEmoji ·))))))
  have horigin : ∀ c ∈ tidy isWhite Re.isSpace ' ' (normalizeFancy (replaceHTMLEntities
      (htmlTagRegex.replaceAll [] (markupRegex.replaceAll [] (raw.filter (!isEmoji ·)))))),
      ∃ e, isEmoji e = false ∧ c = normalized e := by
    intro c hc
    rcases mem_of_tidy hc with hc | rfl
    · obtain ⟨e, he, rfl⟩ := List.mem_map.mp hc
      refine ⟨e, ?_, rfl⟩
      rcases mem_replacePairs he with he | ⟨pair, hpair, he⟩
      · have hraw := (replaceAll_sublist _ _).subset ((replaceAll_sublist _ _).subset he)
        simpa using (List.mem_filter.mp hraw).2
      · exact entities_not_emoji pair hpair e he
    · exact ⟨' ', by decide, by decide⟩
  refine ⟨hspaced, hfirst, hlast, fun c hc => ?_, fun c hc => ?_⟩
  · obtain ⟨e, he, rfl⟩ := horigin c hc
    exact isEmoji_normalized he
  · obtain ⟨e, -, rfl⟩ := horigin c hc
    exact fancy?_normalized e

/-- The characters that start markup, tags and entities. -/
def passStarts : List Char := markupStarts ++ ['<', '&']

/-- A cleaned text is cleaned for good if none of those is left in it. -/
theorem Cleaned.clean_eq {text : List Char} (h : Cleaned text) (hstarts : ∀ c ∈ text, c ∉ passStarts) :
    clean text = text := by
  have hemoji : text.filter (!isEmoji ·) = text := by
    apply List.filter_eq_self.mpr
    intro c hc
    rw [h.emoji c hc, Bool.not_false]
  have hmarkup : markupRegex.replaceAll [] text = text := by
    apply Re.Replaces.replaceAll_eq
    apply Re.Replaces.done
    apply search_markup_eq_none
    exact fun c hc hstart => hstarts c hc (List.mem_append_left _ hstart)
  have htag : '<' ∉ text := fun hmem => hstarts '<' hmem (by decide)
  have hentity : '&' ∉ text := fun hmem => hstarts '&' hmem (by decide)
  have hfancy : normalizeFancy text = text := by
    have hmap : text.map (fun c => (fancy? c).getD c) = text.map id := by
      apply List.map_congr_left
      intro c hc
      rw [h.plain c hc]
      rfl
    rw [normalizeFancy, hmap, List.map_id]
  rw [SphereFx.Extractor.clean_eq, hemoji, hmarkup, htmlTag_eq_self htag, entities_eq_self hentity, hfancy,
    tidy, h.spaced.squeeze_eq]
  exact trim_eq_self h.first h.last

/-- Whatever the raw text, the cleaned one has single spaces, no white space at its ends, no emoji and
no fancy letter, and cleaning it again changes it only if a character is left in it that starts markup,
a tag or an entity. -/
theorem clean_normal_form (raw : List Char) :
    Cleaned (clean raw) ∧ (clean (clean raw) ≠ clean raw → ∃ c ∈ clean raw, c ∈ passStarts) := by
  refine ⟨cleaned_clean raw, fun hchanged => ?_⟩
  by_contra hnone
  push Not at hnone
  exact hchanged ((cleaned_clean raw).clean_eq hnone)

/-- An entity of an entity takes two passes. -/
example : clean "&amp;lt;b&amp;gt; BUY".toList = "&lt;b&gt; BUY".toList ∧
    clean (clean "&amp;lt;b&amp;gt; BUY".toList) = "<b> BUY".toList := by
  decide

end SphereFx.Extractor
