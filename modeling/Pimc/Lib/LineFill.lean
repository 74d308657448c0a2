import Mathlib.Algebra.BigOperators.Group.List.Basic
import Mathlib.Algebra.Ring.Nat
import Mathlib.Data.List.Induction

/-!
# Filling lines with words

Words go on the open line for as long as the line stays shorter than its
width; a word that does not fit opens the next line. The first line has its own
margin. `Filled` describes the result without the process.
-/

namespace Pimc.Lib

variable {α : Type}

/-! ### Joined lists -/

theorem intercalate_concat (sep : List α) {xs : List (List α)} (y : List α) (h : xs ≠ []) :
    sep.intercalate (xs ++ [y]) = sep.intercalate xs ++ sep ++ y := by
  induction xs with
  | nil => exact absurd rfl h
  | cons x xs ih =>
    cases xs with
    | nil =>
      rw [List.singleton_append, List.intercalate_cons_cons, List.intercalate_singleton,
        List.intercalate_singleton]
    | cons z xs =>
      have hrest := ih (List.cons_ne_nil z xs)
      rw [List.cons_append] at hrest
      rw [List.cons_append, List.cons_append, List.intercalate_cons_cons, hrest,
        List.intercalate_cons_cons]
      simp only [List.append_assoc]

theorem intercalate_map_range (sep : List α) (f : ℕ → List α) (n : ℕ) :
    sep.intercalate ((List.range n).map f) =
      (List.range n).flatMap fun k => f k ++ if k + 1 < n then sep else [] := by
  have hlast (m : ℕ) : sep.intercalate ((List.range (m + 1)).map f) =
      ((List.range m).flatMap fun k => f k ++ sep) ++ f m := by
    induction m with
    | zero => exact List.intercalate_singleton
    | succ m ih =>
      rw [List.range_succ, List.map_append, List.map_singleton, intercalate_concat sep _ (by simp),
        ih, List.range_succ, List.flatMap_append, List.flatMap_singleton, List.append_assoc _ (f m)]
  cases n with
  | zero => rfl
  | succ n =>
    have hinit : ((List.range n).flatMap fun k => f k ++ if k + 1 < n + 1 then sep else []) =
        (List.range n).flatMap fun k => f k ++ sep := by
      apply List.flatMap_congr
      intro k hk
      rw [if_pos (Nat.succ_lt_succ (List.mem_range.mp hk))]
    rw [hlast, List.range_succ, List.flatMap_append, List.flatMap_singleton, hinit,
      if_neg (Nat.lt_irrefl (n + 1)), List.append_nil]

/-! ### Margins -/

structure Margin where
  indent : ℕ
  width : ℕ

namespace Margin

/-- The column behind the last word. -/
def column (m : Margin) (line : List (List α)) : ℕ :=
  m.indent + (line.map List.length).sum + (line.length - 1)

def text (m : Margin) (sp : α) (line : List (List α)) : List α :=
  List.replicate m.indent sp ++ [sp].intercalate line

theorem column_singleton (m : Margin) (w : List α) : m.column [w] = m.indent + w.length := by
  simp [column]

theorem column_concat (m : Margin) {line : List (List α)} (w : List α) (h : line ≠ []) :
    m.column (line ++ [w]) = m.column line + 1 + w.length := by
  have hpos := List.length_pos_iff.mpr h
  simp only [column, List.map_append, List.map_cons, List.map_nil, List.sum_append, List.sum_cons,
    List.sum_nil, List.length_append, List.length_cons, List.length_nil]
  omega

theorem text_singleton (m : Margin) (sp : α) (w : List α) :
    m.text sp [w] = List.replicate m.indent sp ++ w := by
  rw [text, List.intercalate_singleton]

theorem text_concat (m : Margin) (sp : α) {line : List (List α)} (w : List α) (h : line ≠ []) :
    m.text sp (line ++ [w]) = m.text sp line ++ [sp] ++ w := by
  simp only [text, intercalate_concat [sp] w h, List.append_assoc]

theorem length_text (m : Margin) (sp : α) (line : List (List α)) :
    (m.text sp line).length = m.column line := by
  induction line using List.reverseRecOn with
  | nil => simp [text, column]
  | append_singleton line w ih =>
    by_cases h : line = []
    · rw [h, List.nil_append, text_singleton, column_singleton, List.length_append,
        List.length_replicate]
    · rw [text_concat m sp w h, column_concat m w h, List.length_append, List.length_append, ih,
        List.length_singleton]

end Margin

/-! ### Filling -/

/-- The lines that are complete, and the line that is open. -/
structure Fill (α : Type) where
  closed : List (List (List α))
  line : List (List α)

namespace Fill

def blank : Fill α := ⟨[], []⟩

def lines (f : Fill α) : List (List (List α)) := f.closed ++ [f.line]

end Fill

section Margins

variable (first later : Margin)

-- The margin of line `k`.
def marginAt (k : ℕ) : Margin := if k = 0 then first else later

namespace Fill

def margin (f : Fill α) : Margin := marginAt first later f.closed.length

def fits (f : Fill α) (w : List α) : Prop :=
  (f.margin first later).column f.line + 1 + w.length < (f.margin first later).width

instance (f : Fill α) (w : List α) : Decidable (f.fits first later w) :=
  inferInstanceAs (Decidable (_ < _))

def place (f : Fill α) (w : List α) : Fill α :=
  if f.line = [] ∨ f.fits first later w then ⟨f.closed, f.line ++ [w]⟩
  else ⟨f.closed ++ [f.line], [w]⟩

/-- The columns that are compared with a width when `w` is placed. -/
def positions (f : Fill α) (w : List α) : List ℕ :=
  let m := f.margin first later
  if f.line = [] then [m.indent + w.length]
  else
    (if m.column f.line < m.width then [m.column f.line + 1 + w.length] else []) ++
      if f.fits first later w then [] else [later.indent + w.length]

/-- All positions stay below `n` while the words are placed. -/
def Below (n : ℕ) : Fill α → List (List α) → Prop
  | _, [] => True
  | f, w :: words =>
    (∀ p ∈ f.positions first later w, p < n) ∧ Below n (f.place first later w) words

end Fill

/-- Lines of words, each as full as its margin allows. -/
structure Filled (sp : α) (lines : List (List (List α))) : Prop where
  nonempty : ∀ line ∈ lines, line ≠ []
  short : ∀ k line, lines[k]? = some line → 2 ≤ line.length →
    ((marginAt first later k).text sp line).length < (marginAt first later k).width
  full : ∀ k line w next, lines[k]? = some line → lines[k + 1]? = some (w :: next) →
    (marginAt first later k).width ≤ ((marginAt first later k).text sp line).length + 1 + w.length

def joined (sp : α) (nl : List α) (lines : List (List (List α))) : List α :=
  nl.intercalate (lines.mapIdx fun k line => (marginAt first later k).text sp line)

variable {first later}

namespace Fill

theorem place_flatten (f : Fill α) (w : List α) :
    (f.place first later w).lines.flatten = f.lines.flatten ++ [w] := by
  unfold place
  split_ifs
  · simp [lines]
  · simp [lines]

theorem foldl_place_flatten (first later : Margin) (words : List (List α)) (f : Fill α) :
    (words.foldl (place first later) f).lines.flatten = f.lines.flatten ++ words := by
  induction words generalizing f with
  | nil => exact (List.append_nil _).symm
  | cons w words ih =>
    rw [List.foldl_cons, ih, place_flatten, List.append_assoc, List.singleton_append]

end Fill

/-! ### The lines are filled -/

theorem getElem?_concat_eq_some {β : Type} {xs : List β} {x y : β} {k : ℕ}
    (h : (xs ++ [x])[k]? = some y) : xs[k]? = some y ∨ k = xs.length ∧ x = y := by
  rcases Nat.lt_trichotomy k xs.length with hlt | heq | hgt
  · left
    rwa [List.getElem?_append_left hlt] at h
  · right
    rw [heq, List.getElem?_concat_length] at h
    exact ⟨heq, Option.some.inj h⟩
  · rw [List.getElem?_eq_none (by simp; omega)] at h
    cases h

theorem getElem?_concat_of_eq_some {β : Type} {xs : List β} {y : β} {k : ℕ} (x : β)
    (h : xs[k]? = some y) : k < xs.length ∧ (xs ++ [x])[k]? = some y := by
  have hlt := (List.getElem?_eq_some_iff.mp h).1
  exact ⟨hlt, by rwa [List.getElem?_append_left hlt]⟩

namespace Filled

theorem singleton (sp : α) (w : List α) : Filled first later sp [[w]] where
  nonempty := by simp
  short := by
    intro k line hline hlen
    rw [List.getElem?_singleton] at hline
    split_ifs at hline
    rw [← Option.some.inj hline, List.length_singleton] at hlen
    omega
  full := by
    intro k line v next _ hnext
    cases hnext

theorem extend {sp : α} {closed : List (List (List α))} {line : List (List α)} {w : List α}
    (h : Filled first later sp (closed ++ [line]))
    (hfits : (Fill.mk closed line).fits first later w) :
    Filled first later sp (closed ++ [line ++ [w]]) := by
  have hne : line ≠ [] := h.nonempty line (by simp)
  refine ⟨?_, ?_, ?_⟩
  · intro l hl
    rw [List.mem_append, List.mem_singleton] at hl
    rcases hl with hl | hl
    · exact h.nonempty l (List.mem_append_left _ hl)
    · simp [hl]
  · intro k l hl hlen
    rcases getElem?_concat_eq_some hl with hold | ⟨hk, hnew⟩
    · exact h.short k l (getElem?_concat_of_eq_some line hold).2 hlen
    · rw [hk, ← hnew, Margin.length_text, Margin.column_concat _ w hne]
      exact hfits
  · intro k l v next hl hnext
    rcases getElem?_concat_eq_some hnext with hold | ⟨hk, hnew⟩
    · obtain ⟨hlt, hold'⟩ := getElem?_concat_of_eq_some line hold
      rcases getElem?_concat_eq_some hl with hold | ⟨hk, _⟩
      · exact h.full k l v next (getElem?_concat_of_eq_some line hold).2 hold'
      · omega
    · rcases getElem?_concat_eq_some hl with hold | ⟨hk', _⟩
      · obtain ⟨v', line', hline⟩ := List.exists_cons_of_ne_nil hne
        rw [hline, List.cons_append, List.cons.injEq] at hnew
        apply h.full k l v line' (getElem?_concat_of_eq_some line hold).2
        rw [hk, List.getElem?_concat_length, hline, hnew.1]
      · omega

theorem newLine {sp : α} {closed : List (List (List α))} {line : List (List α)} {w : List α}
    (h : Filled first later sp (closed ++ [line]))
    (hfits : ¬ (Fill.mk closed line).fits first later w) :
    Filled first later sp ((closed ++ [line]) ++ [[w]]) := by
  refine ⟨?_, ?_, ?_⟩
  · intro l hl
    rw [List.mem_append, List.mem_singleton] at hl
    rcases hl with hl | hl
    · exact h.nonempty l hl
    · simp [hl]
  · intro k l hl hlen
    rcases getElem?_concat_eq_some hl with hold | ⟨_, hnew⟩
    · exact h.short k l hold hlen
    · rw [← hnew, List.length_singleton] at hlen
      omega
  · intro k l v next hl hnext
    rcases getElem?_concat_eq_some hnext with hold | ⟨hk, hnew⟩
    · rcases getElem?_concat_eq_some hl with hold' | ⟨hk, _⟩
      · exact h.full k l v next hold' hold
      · have hlt := (List.getElem?_eq_some_iff.mp hold).1
        omega
    · rw [List.length_append, List.length_singleton, Nat.add_right_cancel_iff] at hk
      rcases getElem?_concat_eq_some hl with hold | ⟨hk', _⟩
      · rw [hk, List.getElem?_concat_length, Option.some.injEq] at hold
        rw [← hold, ← (List.cons.inj hnew).1, hk, Margin.length_text]
        exact Nat.le_of_not_lt hfits
      · rw [List.length_append, List.length_singleton] at hk'
        omega

end Filled

namespace Fill

theorem place_filled {sp : α} {f : Fill α} (w : List α)
    (h : f = blank ∨ Filled first later sp f.lines) :
    Filled first later sp (f.place first later w).lines := by
  rcases h with hblank | hfilled
  · rw [hblank]
    exact Filled.singleton sp w
  · have hne : f.line ≠ [] := hfilled.nonempty f.line (by simp [lines])
    by_cases hfits : f.fits first later w
    · rw [place, if_pos (Or.inr hfits)]
      exact hfilled.extend hfits
    · rw [place, if_neg (not_or.mpr ⟨hne, hfits⟩)]
      exact hfilled.newLine hfits

theorem foldl_place_filled {first later : Margin} {sp : α} (words : List (List α)) (f : Fill α)
    (h : f = blank ∨ Filled first later sp f.lines) :
    words.foldl (place first later) f = blank ∨
      Filled first later sp (words.foldl (place first later) f).lines := by
  induction words generalizing f with
  | nil => exact h
  | cons w words ih => exact ih _ (Or.inr (place_filled w h))

theorem column_place_lt {n : ℕ} {f : Fill α} {w : List α}
    (h : ∀ p ∈ f.positions first later w, p < n) (hblank : f.line = [] → f.closed = []) :
    ((f.place first later w).margin first later).column (f.place first later w).line < n := by
  by_cases hline : f.line = []
  · have hp := h (first.indent + w.length) (by
      rw [positions, if_pos hline, margin, hblank hline]
      exact List.mem_singleton_self _)
    rw [place, if_pos (Or.inl hline), hline, hblank hline]
    simpa [margin, marginAt, Margin.column_singleton] using hp
  · rw [positions, if_neg hline] at h
    by_cases hfits : f.fits first later w
    · have hopen : (f.margin first later).column f.line < (f.margin first later).width := by
        unfold fits at hfits
        omega
      rw [if_pos hopen, if_pos hfits] at h
      rw [place, if_pos (Or.inr hfits), margin, Margin.column_concat _ w hline]
      exact h _ (by simp [margin])
    · rw [if_neg hfits] at h
      rw [place, if_neg (not_or.mpr ⟨hline, hfits⟩), margin, marginAt, if_neg (by simp),
        Margin.column_singleton]
      exact h _ (by simp)

end Fill

/-! ### The text -/

theorem joined_singleton (first later : Margin) (sp : α) (nl w : List α) :
    joined first later sp nl [[w]] = List.replicate first.indent sp ++ w := by
  have hmargin : marginAt first later 0 = first := rfl
  simp only [joined, List.mapIdx_cons, List.mapIdx_nil, List.intercalate_singleton, hmargin,
    Margin.text_singleton]

theorem joined_extend (first later : Margin) (sp : α) (nl : List α)
    (closed : List (List (List α))) {line : List (List α)} (w : List α) (h : line ≠ []) :
    joined first later sp nl (closed ++ [line ++ [w]]) =
      joined first later sp nl (closed ++ [line]) ++ [sp] ++ w := by
  simp only [joined, List.mapIdx_concat, Margin.text_concat _ sp w h]
  by_cases hclosed : closed = []
  · simp only [hclosed, List.mapIdx_nil, List.nil_append, List.intercalate_singleton]
  · have hne : (closed.mapIdx fun k line => (marginAt first later k).text sp line) ≠ [] := by
      simpa using hclosed
    simp only [intercalate_concat nl _ hne, List.append_assoc]

theorem joined_newLine (first later : Margin) (sp : α) (nl : List α)
    {lines : List (List (List α))} (w : List α) (h : lines ≠ []) :
    joined first later sp nl (lines ++ [[w]]) =
      joined first later sp nl lines ++ nl ++ List.replicate later.indent sp ++ w := by
  have hlen : lines.length ≠ 0 := fun h0 => h (List.length_eq_zero_iff.mp h0)
  have hmargin : marginAt first later lines.length = later := if_neg hlen
  have hne : (lines.mapIdx fun k line => (marginAt first later k).text sp line) ≠ [] := by
    simpa using h
  rw [joined, List.mapIdx_concat, hmargin, Margin.text_singleton, intercalate_concat nl _ hne,
    joined]
  simp only [List.append_assoc]

end Margins

end Pimc.Lib
