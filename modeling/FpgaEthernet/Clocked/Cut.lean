import Mathlib.Data.List.Basic
import Mathlib.Tactic

/-!
# Cutting a stream into frames

A stream of words some of which are marked as the last of their frame.
`cut last l` is the list of finished frames and the open rest.

Main results:

* `cut_concat`: one more word extends the open frame, and closes it when marked.
* `cut_flatten`: the frames and the open rest make up the stream.
* `cut_ends`: exactly the last word of a finished frame is marked, and no word
  of the open rest is.
* `cut_flatten_append`: frames put together are cut into these frames.
* `Labelled.concat_open`, `Labelled.concat_last`: when every word of a frame
  carries the label of the frame.
* `Labelled.cut_filter`: then the words of some labels are cut into the frames with these
  labels.
-/

namespace FpgaEthernet.Clocked

universe u v

variable {α : Type u} (last : α → Bool)

/-- One more word of the stream. -/
def cutStep (c : List (List α) × List α) (a : α) : List (List α) × List α :=
  if last a then (c.1 ++ [c.2 ++ [a]], []) else (c.1, c.2 ++ [a])

/-- The finished frames of a stream, and the words since the last mark. -/
def cut (l : List α) : List (List α) × List α := l.foldl (cutStep last) ([], [])

@[simp] theorem cut_nil : cut last [] = ([], []) := rfl

theorem cut_concat (l : List α) (a : α) : cut last (l ++ [a]) = cutStep last (cut last l) a := by
  simp [cut]

/-- A word that is not marked stays in the open frame. -/
theorem cut_concat_open (l : List α) (a : α) (h : last a = false) :
    cut last (l ++ [a]) = ((cut last l).1, (cut last l).2 ++ [a]) := by
  simp [cut_concat, cutStep, h]

/-- A marked word closes the open frame. -/
theorem cut_concat_last (l : List α) (a : α) (h : last a = true) :
    cut last (l ++ [a]) = ((cut last l).1 ++ [(cut last l).2 ++ [a]], []) := by
  simp [cut_concat, cutStep, h]

theorem cut_flatten (l : List α) : (cut last l).1.flatten ++ (cut last l).2 = l := by
  induction l using List.reverseRecOn with
  | nil => rfl
  | append_singleton l a ih =>
    cases h : last a
    · rw [cut_concat_open last l a h, ← List.append_assoc, ih]
    · rw [cut_concat_last last l a h]
      simp only [List.flatten_append, List.flatten_singleton, List.append_nil]
      rw [← List.append_assoc, ih]

/-- Cutting a stream seen through `f` is cutting the stream and then looking
    through `f`. -/
theorem cut_map {β : Type u} (f : β → α) (l : List β) :
    cut last (l.map f) =
      ((cut (last ∘ f) l).1.map (List.map f), (cut (last ∘ f) l).2.map f) := by
  induction l using List.reverseRecOn with
  | nil => rfl
  | append_singleton l b ih =>
    rw [List.map_append, List.map_singleton, cut_concat, cut_concat, ih, cutStep, cutStep,
      Function.comp_apply]
    split_ifs <;> simp

/-- Finished frames stay as they are. -/
theorem cut_append_isPrefix (l l' : List α) : (cut last l).1 <+: (cut last (l ++ l')).1 := by
  induction l' using List.reverseRecOn with
  | nil => simp
  | append_singleton l' a ih =>
    refine ih.trans ?_
    rw [← List.append_assoc, cut_concat]
    unfold cutStep
    split_ifs
    · exact List.prefix_append _ _
    · exact List.prefix_refl _

/-- The open rest begins a frame of every continuation, finished or not. -/
theorem cut_append_open (l l' : List α) :
    ∃ f ∈ (cut last (l ++ l')).1 ++ [(cut last (l ++ l')).2], (cut last l).2 <+: f := by
  induction l' using List.reverseRecOn with
  | nil => exact ⟨(cut last l).2, by simp, List.prefix_refl _⟩
  | append_singleton l' a ih =>
    obtain ⟨f, hf, hp⟩ := ih
    rw [← List.append_assoc, cut_concat]
    unfold cutStep
    rcases List.mem_append.1 hf with hf | hf
    · refine ⟨f, List.mem_append_left _ ?_, hp⟩
      split_ifs
      · exact List.mem_append_left _ hf
      · exact hf
    · rw [List.mem_singleton.1 hf] at hp
      refine ⟨(cut last (l ++ l')).2 ++ [a], ?_, hp.trans (List.prefix_append _ _)⟩
      split_ifs <;> simp

/-- Exactly the last word of a finished frame is marked, and no word of the
    open rest is. -/
theorem cut_ends (l : List α) :
    (∀ f ∈ (cut last l).1, ∃ g a, f = g ++ [a] ∧ last a = true ∧ ∀ b ∈ g, last b = false) ∧
    ∀ b ∈ (cut last l).2, last b = false := by
  induction l using List.reverseRecOn with
  | nil => simp
  | append_singleton l a ih =>
    obtain ⟨hfin, hopen⟩ := ih
    cases h : last a
    · rw [cut_concat_open last l a h]
      refine ⟨hfin, fun b hb => ?_⟩
      rcases List.mem_append.1 hb with hb | hb
      · exact hopen b hb
      · obtain rfl := List.mem_singleton.1 hb
        exact h
    · rw [cut_concat_last last l a h]
      refine ⟨fun f hf => ?_, by simp⟩
      rcases List.mem_append.1 hf with hf | hf
      · exact hfin f hf
      · obtain rfl := List.mem_singleton.1 hf
        exact ⟨(cut last l).2, a, rfl, h, hopen⟩

/-- Words without a mark extend the open frame. -/
theorem cut_append_of_open (l : List α) {o : List α} (ho : ∀ b ∈ o, last b = false) :
    cut last (l ++ o) = ((cut last l).1, (cut last l).2 ++ o) := by
  induction o using List.reverseRecOn with
  | nil => rw [List.append_nil, List.append_nil]
  | append_singleton o a ih =>
    rw [← List.append_assoc, cut_concat_open last _ a (ho a (by simp)),
      ih fun b hb => ho b (List.mem_append_left _ hb), List.append_assoc]

/-- Frames, and words without a mark after them, are cut into these frames. -/
theorem cut_flatten_append {fs : List (List α)} {o : List α}
    (hfs : ∀ f ∈ fs, ∃ g a, f = g ++ [a] ∧ last a = true ∧ ∀ b ∈ g, last b = false)
    (ho : ∀ b ∈ o, last b = false) : cut last (fs.flatten ++ o) = (fs, o) := by
  induction fs using List.reverseRecOn generalizing o with
  | nil => exact cut_append_of_open last [] ho
  | append_singleton fs f ih =>
    obtain ⟨g, a, rfl, ha, hg⟩ := hfs f (by simp)
    have hcut := ih (fun f hf => hfs f (List.mem_append_left _ hf)) hg
    rw [cut_append_of_open last _ ho, List.flatten_append, List.flatten_singleton,
      ← List.append_assoc, cut_concat_last last _ a ha, hcut, List.nil_append]

/-- A bound on the frames after one more word, the open one included, is a bound
    on the frames before it, and the open one leaves room for the word. -/
theorem cut_length_of_concat {l : List α} {a : α} {m : ℕ}
    (h : ∀ f ∈ (cut last (l ++ [a])).1 ++ [(cut last (l ++ [a])).2], f.length ≤ m) :
    (∀ f ∈ (cut last l).1 ++ [(cut last l).2], f.length ≤ m) ∧ (cut last l).2.length < m := by
  rw [cut_concat] at h
  have hopen : (cut last l).2.length < m := by
    have hmem : (cut last l).2 ++ [a] ∈
        (cutStep last (cut last l) a).1 ++ [(cutStep last (cut last l) a).2] := by
      unfold cutStep
      split_ifs <;> simp
    simpa using h _ hmem
  refine ⟨fun f hf => ?_, hopen⟩
  rcases List.mem_append.1 hf with hf | hf
  · refine h f (List.mem_append_left _ ?_)
    unfold cutStep
    split_ifs
    · exact List.mem_append_left _ hf
    · exact hf
  · rw [List.mem_singleton.1 hf]
    exact hopen.le

/-! ## Labelled streams -/

/-- In a stream whose words carry labels, all words of a frame carry the same
    one: the frames have the labels `ts`, and the open rest has `t`. -/
structure Labelled {τ : Type v} (l : List (α × τ)) (ts : List τ) (t : τ) : Prop where
  frames : List.Forall₂ (fun f t => ∀ x ∈ f, x.2 = t) (cut (last ∘ Prod.fst) l).1 ts
  rest : ∀ x ∈ (cut (last ∘ Prod.fst) l).2, x.2 = t

variable {last}

theorem labelled_nil {τ : Type v} (t : τ) : Labelled last [] [] t where
  frames := .nil
  rest := by simp

/-- A word that is not marked carries the label of the open frame. -/
theorem Labelled.concat_open {τ : Type v} {l : List (α × τ)} {ts : List τ} {t : τ} {a : α}
    (h : Labelled last l ts t) (ha : last a = false) : Labelled last (l ++ [(a, t)]) ts t := by
  have hcut := cut_concat_open (last ∘ Prod.fst) l (a, t) ha
  refine ⟨by rw [hcut]; exact h.frames, ?_⟩
  rw [hcut]
  intro x hx
  rcases List.mem_append.1 hx with hx | hx
  · exact h.rest x hx
  · rw [List.mem_singleton.1 hx]

/-- A marked word closes the open frame, which has its label. -/
theorem Labelled.concat_last {τ : Type v} {l : List (α × τ)} {ts : List τ} {t : τ} {a : α}
    (h : Labelled last l ts t) (ha : last a = true) :
    Labelled last (l ++ [(a, t)]) (ts ++ [t]) t := by
  have hcut := cut_concat_last (last ∘ Prod.fst) l (a, t) ha
  refine ⟨?_, by simp [hcut]⟩
  rw [hcut]
  refine List.rel_append h.frames (.cons ?_ .nil)
  intro x hx
  rcases List.mem_append.1 hx with hx | hx
  · exact h.rest x hx
  · rw [List.mem_singleton.1 hx]

/-- Between frames the label of the next one may be chosen. -/
theorem Labelled.relabel {τ : Type v} {l : List (α × τ)} {ts : List τ} {t : τ}
    (h : Labelled last l ts t) (hrest : (cut (last ∘ Prod.fst) l).2 = []) (t' : τ) :
    Labelled last l ts t' where
  frames := h.frames
  rest := by simp [hrest]

/-- All words of a frame, finished or not, carry one label. -/
theorem Labelled.exists_label {τ : Type v} {l : List (α × τ)} {ts : List τ} {t : τ}
    (h : Labelled last l ts t) {f : List (α × τ)}
    (hf : f ∈ (cut (last ∘ Prod.fst) l).1 ++ [(cut (last ∘ Prod.fst) l).2]) :
    ∃ t', ∀ x ∈ f, x.2 = t' := by
  rcases List.mem_append.1 hf with hf | hf
  · obtain ⟨n, hn, rfl⟩ := List.getElem_of_mem hf
    obtain ⟨hlen, hget⟩ := List.forall₂_iff_get.1 h.frames
    exact ⟨_, hget n hn (hlen ▸ hn)⟩
  · rw [List.mem_singleton.1 hf]
    exact ⟨t, h.rest⟩

/-- The same holds of the frames of a beginning of the stream. -/
theorem Labelled.exists_label_of_append {τ : Type v} {l l' : List (α × τ)} {ts : List τ} {t : τ}
    (h : Labelled last (l ++ l') ts t) {f : List (α × τ)}
    (hf : f ∈ (cut (last ∘ Prod.fst) l).1 ++ [(cut (last ∘ Prod.fst) l).2]) :
    ∃ t', ∀ x ∈ f, x.2 = t' := by
  rcases List.mem_append.1 hf with hf | hf
  · exact h.exists_label (List.mem_append_left _ ((cut_append_isPrefix _ _ _).subset hf))
  · obtain ⟨g, hg, hp⟩ := cut_append_open (last ∘ Prod.fst) l l'
    obtain ⟨t', ht'⟩ := h.exists_label hg
    rw [List.mem_singleton.1 hf]
    exact ⟨t', fun x hx => ht' x (hp.subset hx)⟩

/-- Of the words of some labels, the frames are the frames with these labels. -/
theorem Labelled.cut_filter {τ : Type v} {l : List (α × τ)} {ts : List τ} {t : τ}
    (h : Labelled last l ts t) (p : τ → Bool) :
    (cut (last ∘ Prod.fst) (l.filter fun x => p x.2)).1 =
      (cut (last ∘ Prod.fst) l).1.filter fun f => f.all fun x => p x.2 := by
  obtain ⟨hends, hopen⟩ := cut_ends (last ∘ Prod.fst) l
  have huniform : ∀ f ∈ (cut (last ∘ Prod.fst) l).1, f.filter (fun x => p x.2) =
      if f.all fun x => p x.2 then f else [] := by
    intro f hf
    obtain ⟨t', ht'⟩ := h.exists_label (List.mem_append_left _ hf)
    cases hp : p t'
    · obtain ⟨g, a, rfl, -, -⟩ := hends f hf
      have hnone : ∀ x ∈ g ++ [a], ¬p x.2 = true := fun x hx => by
        rw [ht' x hx, hp]
        exact Bool.false_ne_true
      rw [if_neg, List.filter_eq_nil_iff.2 hnone]
      rw [List.all_eq_true]
      intro hall
      have ha := hall a (by simp)
      rw [ht' a (by simp), hp] at ha
      cases ha
    · rw [if_pos (List.all_eq_true.2 fun x hx => by rw [ht' x hx, hp]),
        List.filter_eq_self.2 fun x hx => by rw [ht' x hx, hp]]
  have hflat : ((cut (last ∘ Prod.fst) l).1.map (List.filter fun x => p x.2)).flatten =
      ((cut (last ∘ Prod.fst) l).1.filter fun f => f.all fun x => p x.2).flatten := by
    generalize (cut (last ∘ Prod.fst) l).1 = fs at huniform
    induction fs with
    | nil => rfl
    | cons f fs ih =>
      obtain ⟨hf, hfs⟩ := List.forall_mem_cons.1 huniform
      rw [List.map_cons, List.flatten_cons, hf, ih hfs, List.filter_cons]
      split_ifs
      · rw [List.flatten_cons]
      · rw [List.nil_append]
  nth_rewrite 1 [← cut_flatten (last ∘ Prod.fst) l]
  rw [List.filter_append, List.filter_flatten, hflat, cut_flatten_append]
  · exact fun f hf => hends f (List.mem_of_mem_filter hf)
  · exact fun b hb => hopen b (List.mem_of_mem_filter hb)

/-- What stands at a place of a list stands there in every continuation of it. -/
theorem getElem?_of_isPrefix {l₁ l₂ : List α} (h : l₁ <+: l₂) {k : ℕ} {a : α}
    (hk : l₁[k]? = some a) : l₂[k]? = some a := by
  obtain ⟨l, rfl⟩ := h
  rw [List.getElem?_append_left (List.getElem?_eq_some_iff.1 hk).1, hk]

end FpgaEthernet.Clocked
