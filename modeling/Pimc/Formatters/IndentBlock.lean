import Mathlib.Data.List.DropRight
import Pimc.Formatters.ConsumeIfUnlessEscaped
import Pimc.Lib.LineFill
import Pimc.Lib.Outcome

/-!
# Indented text blocks (lib/pimc/formatters/IndentBlock.hpp)

The words are placed the way `Lib.LineFill` places them, as long as the columns
fit an `unsigned`.
-/

namespace Pimc

namespace IndentBlock

open ConsumeIfUnlessEscaped Lib

variable {α : Type}

structure Loop (α : Type) where
  pchr : List α
  oi : List α
  empty : Bool
  curPos : BitVec 32
  firstLine : Bool
  indsz : BitVec 32
  width : BitVec 32

section Code

variable (ws esc : α → Bool) (indent maxWidth : BitVec 32) (sp : α) (nl : List α)

def notWS (c : α) : Bool := !ws c

-- The `<nl><indent>` sequence; the first line has no `<nl>`.
def Loop.indentLine (s : Loop α) : Loop α :=
  let s := if !s.firstLine then { s with oi := s.oi ++ nl, width := maxWidth }
    else { s with firstLine := false }
  { s with oi := s.oi ++ List.replicate s.indsz.toNat sp, curPos := s.indsz, indsz := indent }

def Loop.copyWord (s : Loop α) : Loop α :=
  { s with oi :=
      (consumeIfUnlessEscaped (notWS ws) esc (fun oi c => oi ++ [c]) s.oi s.pchr).out }

def Loop.space (s : Loop α) : Loop α :=
  { s with oi := s.oi ++ List.replicate 1 sp, curPos := s.curPos + 1 }

-- The check after a word on a line that is not empty.
def Loop.advance (wordLen : BitVec 32) (s : Loop α) : Loop α :=
  if s.curPos + wordLen < s.width then { s with curPos := s.curPos + wordLen }
  else { s with empty := true, curPos := 0 }

-- The check after the first word of an empty line.
def Loop.start (wordLen : BitVec 32) (s : Loop α) : Loop α :=
  if s.curPos + wordLen < s.width then { s with curPos := s.curPos + wordLen, empty := false }
  else s

def Loop.goTo (pchr : List α) (s : Loop α) : Loop α := { s with pchr := pchr }

def Loop.more (s : Loop α) : Bool := !s.pchr.isEmpty

def step (s : Loop α) : Loop α :=
  let scanned := consumeIfUnlessEscaped (notWS ws) esc (fun _ _ => ()) () s.pchr
  let wordLen := scanned.count
  let t :=
    if !s.empty then
      let t := if s.curPos + wordLen + 1 < s.width then s.space sp
        else s.indentLine indent maxWidth sp nl
      (t.copyWord ws esc).advance wordLen
    else ((s.indentLine indent maxWidth sp nl).copyWord ws esc).start wordLen
  t.goTo (scanned.first.dropWhile ws)

def body (s : Loop α) : Outcome String (Loop α) := .ret (step ws esc indent maxWidth sp nl s)

end Code

end IndentBlock

open IndentBlock Lib

variable {α : Type}

/-- Returns the rest of the input and the output. -/
def indentBlock (ws esc : α → Bool) (oi : List α) (line1indent line1maxWidth indent maxWidth : BitVec 32)
    (sp : α) (nl : List α) (text : List α) (fuel : ℕ) : Outcome String (List α × List α) :=
  if line1indent ≥ line1maxWidth then
    .throws s!"line1indent ({line1indent.toNat}) may not be greater or equal to line1maxWidth ({line1maxWidth.toNat})"
  else if indent ≥ maxWidth then
    .throws s!"indent ({indent.toNat}) may not be greater or equal to maxWidth ({maxWidth.toNat})"
  else
    let pchr := text.dropWhile ws
    if pchr.isEmpty then .ret (pchr, oi)
    else do
      let s ← whileLoop Loop.more (body ws esc indent maxWidth sp nl) fuel
        ⟨pchr, oi, true, 0, true, line1indent, line1maxWidth⟩
      return (s.pchr, s.oi)

namespace IndentBlock

open ConsumeIfUnlessEscaped

/-! ### Words -/

/-- The words of a text: runs up to an unescaped white space, with the escapes resolved. -/
def words (ws esc : α → Bool) (text : List α) : List (List α) :=
  match _h : text.dropWhile ws with
  | [] => []
  | c :: input =>
    unescaped (notWS ws) esc (c :: input) ::
      words ws esc (remaining (notWS ws) esc (c :: input))
termination_by text.length
decreasing_by
  have hws := List.head?_dropWhile_not ws text
  rw [_h] at hws
  have hle := List.length_dropWhile_le ws text
  rw [_h] at hle
  have hlt := length_remaining_lt (notWS ws) esc input
    (c := c) (by simpa [notWS] using hws)
  omega

theorem words_of_nil {ws esc : α → Bool} {text : List α} (h : text.dropWhile ws = []) :
    words ws esc text = [] := by
  rw [words]
  split
  · rfl
  · rename_i heq
    rw [h] at heq
    cases heq

theorem words_of_cons {ws esc : α → Bool} {text : List α} {c : α} {input : List α}
    (h : text.dropWhile ws = c :: input) :
    words ws esc text = unescaped (notWS ws) esc (c :: input) ::
      words ws esc (remaining (notWS ws) esc (c :: input)) := by
  rw [words]
  split
  · rename_i heq
    rw [h] at heq
    cases heq
  · rename_i heq
    rw [h, List.cons.injEq] at heq
    rw [heq.1, heq.2]

theorem words_dropWhile (ws esc : α → Bool) (text : List α) :
    words ws esc (text.dropWhile ws) = words ws esc text := by
  have hidem : (text.dropWhile ws).dropWhile ws = text.dropWhile ws :=
    List.dropWhile_idempotent ws text
  cases h : text.dropWhile ws with
  | nil => rw [words_of_nil h, words_of_nil rfl]
  | cons c input =>
    rw [h] at hidem
    rw [words_of_cons hidem, words_of_cons h]

/-! ### One word -/

theorem toNat_add_ofNat {x : BitVec 32} {n : ℕ} (h : x.toNat + n < 2 ^ 32) :
    (x + BitVec.ofNat 32 n).toNat = x.toNat + n := by
  have hn : (BitVec.ofNat 32 n).toNat = n := Nat.mod_eq_of_lt (by omega)
  rw [BitVec.toNat_add_of_lt (by omega), hn]

def marginOf (indent maxWidth : BitVec 32) : Margin := ⟨indent.toNat, maxWidth.toNat⟩

/-- The loop variables when the words of `f` are in the output behind `oi`. -/
structure Represents (first later : Margin) (sp : α) (nl oi : List α) (f : Fill α)
    (s : Loop α) : Prop where
  blank : f.line = [] → f.closed = []
  oi : s.oi = oi ++ if f.line = [] then [] else joined first later sp nl f.lines
  firstLine : s.firstLine = decide (f.line = [])
  indsz : s.indsz.toNat = if f.line = [] then first.indent else later.indent
  width : s.width.toNat = (f.margin first later).width
  empty : s.empty = true ↔
    f.line = [] ∨ (f.margin first later).width ≤ (f.margin first later).column f.line
  curPos : s.empty = false → s.curPos.toNat = (f.margin first later).column f.line

/-- The loop variables once `w` is copied, before its end is compared with the width. -/
structure Copied (first later : Margin) (sp : α) (nl oi : List α) (f : Fill α) (w : List α)
    (s : Loop α) : Prop where
  line : f.line ≠ []
  oi : s.oi = oi ++ joined first later sp nl f.lines
  firstLine : s.firstLine = false
  indsz : s.indsz.toNat = later.indent
  width : s.width.toNat = (f.margin first later).width
  curPos : s.curPos.toNat + w.length = (f.margin first later).column f.line

section Run

variable {first : Margin} {ws esc : α → Bool} {indent maxWidth : BitVec 32} {sp : α}
  {nl oi : List α}

theorem Copied.represents {later : Margin} {f : Fill α} {w : List α} {s t : Loop α}
    (h : Copied first later sp nl oi f w s) (hoi : t.oi = s.oi) (hfirst : t.firstLine = s.firstLine)
    (hindsz : t.indsz = s.indsz) (hwidth : t.width = s.width)
    (hempty : t.empty = true ↔
      (f.margin first later).width ≤ (f.margin first later).column f.line)
    (hcur : t.empty = false → t.curPos.toNat = (f.margin first later).column f.line) :
    Represents first later sp nl oi f t where
  blank := fun hline => absurd hline h.line
  oi := by rw [hoi, h.oi, if_neg h.line]
  firstLine := by simp [hfirst, h.firstLine, h.line]
  indsz := by rw [hindsz, h.indsz, if_neg h.line]
  width := by rw [hwidth, h.width]
  empty := by rw [hempty, or_iff_right h.line]
  curPos := hcur

theorem copyWord_oi (ws esc : α → Bool) (s : Loop α) :
    (s.copyWord ws esc).oi = s.oi ++ unescaped (notWS ws) esc s.pchr := by
  rw [Loop.copyWord, consumeIfUnlessEscaped_eq]
  have hpush (out word : List α) : word.foldl (fun out c => out ++ [c]) out = out ++ word := by
    rw [List.foldl_append_eq_append (f := fun c => [c]), ← List.flatMap_def,
      List.flatMap_singleton']
  exact hpush s.oi _

theorem indentLine_first {s : Loop α} (h : s.firstLine = true) :
    s.indentLine indent maxWidth sp nl =
      { s with oi := s.oi ++ List.replicate s.indsz.toNat sp, firstLine := false,
               curPos := s.indsz, indsz := indent } := by
  simp only [Loop.indentLine, h, Bool.not_true, Bool.false_eq_true, if_false]

theorem indentLine_later {s : Loop α} (h : s.firstLine = false) :
    s.indentLine indent maxWidth sp nl =
      { s with oi := s.oi ++ nl ++ List.replicate s.indsz.toNat sp, width := maxWidth,
               curPos := s.indsz, indsz := indent } := by
  simp only [Loop.indentLine, h, Bool.not_false, if_true]

/-- A word that opens a line. -/
theorem indentLine_copied {f : Fill α} {s : Loop α} {w : List α}
    (h : Represents first (marginOf indent maxWidth) sp nl oi f s)
    (hw : unescaped (notWS ws) esc s.pchr = w)
    (hnew : f.line ≠ [] → ¬ f.fits first (marginOf indent maxWidth) w) :
    Copied first (marginOf indent maxWidth) sp nl oi (f.place first (marginOf indent maxWidth) w) w
      ((s.indentLine indent maxWidth sp nl).copyWord ws esc) := by
  have hindsz := h.indsz
  have hwidth := h.width
  by_cases hline : f.line = []
  · have hplace : f.place first (marginOf indent maxWidth) w = ⟨[], [w]⟩ := by
      rw [Fill.place, if_pos (Or.inl hline), hline, h.blank hline, List.nil_append]
    have hfirst : s.firstLine = true := by
      rw [h.firstLine, hline]
      rfl
    have hoi := h.oi
    rw [if_pos hline, List.append_nil] at hoi
    rw [if_pos hline] at hindsz
    rw [Fill.margin, h.blank hline] at hwidth
    rw [hplace, indentLine_first hfirst]
    refine ⟨List.cons_ne_nil _ _, ?_, rfl, rfl, hwidth, ?_⟩
    · rw [copyWord_oi, hw, hoi, hindsz, Fill.lines, List.nil_append, joined_singleton,
        List.append_assoc]
    · have hcolumn := Margin.column_singleton first w
      rw [← hindsz] at hcolumn
      exact hcolumn.symm
  · have hplace : f.place first (marginOf indent maxWidth) w = ⟨f.closed ++ [f.line], [w]⟩ := by
      rw [Fill.place, if_neg (not_or.mpr ⟨hline, hnew hline⟩)]
    have hfirst : s.firstLine = false := by
      rw [h.firstLine]
      exact decide_eq_false hline
    have hmargin : (Fill.mk (f.closed ++ [f.line]) [w]).margin first (marginOf indent maxWidth) =
        marginOf indent maxWidth := by
      rw [Fill.margin, marginAt, if_neg (by simp)]
    have hoi := h.oi
    rw [if_neg hline] at hoi hindsz
    rw [hplace, indentLine_later hfirst]
    refine ⟨List.cons_ne_nil _ _, ?_, hfirst, rfl, ?_, ?_⟩
    · have hne : f.lines ≠ [] := by simp [Fill.lines]
      have hjoined := joined_newLine first (marginOf indent maxWidth) sp nl w hne
      rw [copyWord_oi, hw, hoi, hindsz]
      simp only [Fill.lines, List.append_assoc] at hjoined ⊢
      rw [hjoined]
    · rw [hmargin]
      rfl
    · rw [hmargin, Margin.column_singleton, ← hindsz]
      rfl

/-- A word that goes on the open line. -/
theorem space_copied {f : Fill α} {s : Loop α} {w : List α}
    (h : Represents first (marginOf indent maxWidth) sp nl oi f s)
    (hw : unescaped (notWS ws) esc s.pchr = w) (hempty : s.empty = false)
    (hfits : f.fits first (marginOf indent maxWidth) w)
    (hbelow : (f.margin first (marginOf indent maxWidth)).column f.line + 1 + w.length < 2 ^ 32) :
    Copied first (marginOf indent maxWidth) sp nl oi (f.place first (marginOf indent maxWidth) w) w
      ((s.space sp).copyWord ws esc) := by
  have hcur := h.curPos hempty
  have hline : f.line ≠ [] := fun hnil => by
    have hset := h.empty.mpr (Or.inl hnil)
    rw [hempty] at hset
    cases hset
  have hplace : f.place first (marginOf indent maxWidth) w = ⟨f.closed, f.line ++ [w]⟩ := by
    rw [Fill.place, if_pos (Or.inr hfits)]
  have hoi := h.oi
  have hindsz := h.indsz
  rw [if_neg hline] at hoi hindsz
  have hone : (s.curPos + 1).toNat = s.curPos.toNat + 1 := toNat_add_ofNat (n := 1) (by omega)
  rw [hplace]
  refine ⟨by simp, ?_, ?_, hindsz, h.width, ?_⟩
  · have hjoined := joined_extend first (marginOf indent maxWidth) sp nl
      f.closed w hline
    have hspace : (s.space sp).oi = s.oi ++ [sp] := rfl
    have hpchr : (s.space sp).pchr = s.pchr := rfl
    rw [copyWord_oi, hspace, hpchr, hw, hoi]
    simp only [Fill.lines, List.append_assoc] at hjoined ⊢
    rw [hjoined]
  · show s.firstLine = false
    rw [h.firstLine]
    exact decide_eq_false hline
  · have hcolumn := Margin.column_concat (f.margin first (marginOf indent maxWidth)) w hline
    rw [← hcur, ← hone] at hcolumn
    exact hcolumn.symm

theorem Copied.end_toNat {later : Margin} {f : Fill α} {w : List α} {s : Loop α}
    (h : Copied first later sp nl oi f w s) (hcol : (f.margin first later).column f.line < 2 ^ 32) :
    (s.curPos + BitVec.ofNat 32 w.length).toNat = (f.margin first later).column f.line := by
  rw [toNat_add_ofNat (h.curPos ▸ hcol), h.curPos]

theorem Copied.end_lt_iff {later : Margin} {f : Fill α} {w : List α} {s : Loop α}
    (h : Copied first later sp nl oi f w s) (hcol : (f.margin first later).column f.line < 2 ^ 32) :
    s.curPos + BitVec.ofNat 32 w.length < s.width ↔
      (f.margin first later).column f.line < (f.margin first later).width := by
  rw [BitVec.lt_def, h.end_toNat hcol, h.width]

theorem Copied.advance {later : Margin} {f : Fill α} {w : List α} {s : Loop α}
    (h : Copied first later sp nl oi f w s) (hcol : (f.margin first later).column f.line < 2 ^ 32)
    (hempty : s.empty = false) :
    Represents first later sp nl oi f (s.advance (BitVec.ofNat 32 w.length)) := by
  have hiff := h.end_lt_iff hcol
  unfold Loop.advance
  by_cases hlt : s.curPos + BitVec.ofNat 32 w.length < s.width
  · rw [if_pos hlt]
    refine h.represents rfl rfl rfl rfl ?_ ?_
    · simp [hempty, hiff.mp hlt]
    · exact fun _ => h.end_toNat hcol
  · rw [if_neg hlt]
    refine h.represents rfl rfl rfl rfl ?_ ?_
    · simpa using fun hlt' => hlt (hiff.mpr hlt')
    · intro h
      cases h

theorem Copied.start {later : Margin} {f : Fill α} {w : List α} {s : Loop α}
    (h : Copied first later sp nl oi f w s) (hcol : (f.margin first later).column f.line < 2 ^ 32)
    (hempty : s.empty = true) :
    Represents first later sp nl oi f (s.start (BitVec.ofNat 32 w.length)) := by
  have hiff := h.end_lt_iff hcol
  unfold Loop.start
  by_cases hlt : s.curPos + BitVec.ofNat 32 w.length < s.width
  · rw [if_pos hlt]
    refine h.represents rfl rfl rfl rfl ?_ ?_
    · simp [hiff.mp hlt]
    · exact fun _ => h.end_toNat hcol
  · rw [if_neg hlt]
    refine h.represents rfl rfl rfl rfl ?_ ?_
    · simpa [hempty] using fun hlt' => hlt (hiff.mpr hlt')
    · intro h
      rw [hempty] at h
      cases h

theorem Represents.goTo {later : Margin} {f : Fill α} {s : Loop α}
    (h : Represents first later sp nl oi f s) (pchr : List α) :
    Represents first later sp nl oi f (s.goTo pchr) :=
  ⟨h.blank, h.oi, h.firstLine, h.indsz, h.width, h.empty, h.curPos⟩

theorem indentLine_empty (indent maxWidth : BitVec 32) (sp : α) (nl : List α) (s : Loop α) :
    (s.indentLine indent maxWidth sp nl).empty = s.empty := by
  unfold Loop.indentLine
  split_ifs <;> rfl

/-- The sum that is compared does not wrap around. -/
theorem next_lt_iff {f : Fill α} {s : Loop α} {w : List α}
    (h : Represents first (marginOf indent maxWidth) sp nl oi f s) (hempty : s.empty = false)
    (hnext : (f.margin first (marginOf indent maxWidth)).column f.line + 1 + w.length < 2 ^ 32) :
    s.curPos + BitVec.ofNat 32 w.length + 1 < s.width ↔
      f.fits first (marginOf indent maxWidth) w := by
  have hcur := h.curPos hempty
  have hword : (s.curPos + BitVec.ofNat 32 w.length).toNat = s.curPos.toNat + w.length :=
    toNat_add_ofNat (by omega)
  have hend : (s.curPos + BitVec.ofNat 32 w.length + 1).toNat =
      (s.curPos + BitVec.ofNat 32 w.length).toNat + 1 := toNat_add_ofNat (n := 1) (by omega)
  rw [BitVec.lt_def, hend, hword, hcur, h.width, Fill.fits, Nat.add_right_comm]

theorem step_represents {f : Fill α} {s : Loop α} {w : List α}
    (h : Represents first (marginOf indent maxWidth) sp nl oi f s)
    (hw : unescaped (notWS ws) esc s.pchr = w)
    (hbelow : ∀ p ∈ f.positions first (marginOf indent maxWidth) w, p < 2 ^ 32) :
    Represents first (marginOf indent maxWidth) sp nl oi
      (f.place first (marginOf indent maxWidth) w) (step ws esc indent maxWidth sp nl s) := by
  have hcol := Fill.column_place_lt hbelow h.blank
  have hindent := indentLine_empty indent maxWidth sp nl s
  simp only [step, consumeIfUnlessEscaped_eq, hw]
  apply Represents.goTo
  cases hempty : s.empty with
  | true =>
    have hnew : f.line ≠ [] → ¬ f.fits first (marginOf indent maxWidth) w := by
      intro hline
      have hfull := (h.empty.mp hempty).resolve_left hline
      unfold Fill.fits
      omega
    exact (indentLine_copied h hw hnew).start hcol (hindent.trans hempty)
  | false =>
    have hopen : f.line ≠ [] ∧ (f.margin first (marginOf indent maxWidth)).column f.line <
        (f.margin first (marginOf indent maxWidth)).width := by
      have hnot := mt h.empty.mpr (by simp [hempty])
      rwa [not_or, Nat.not_le] at hnot
    have hnext : (f.margin first (marginOf indent maxWidth)).column f.line + 1 + w.length <
        2 ^ 32 := by
      rw [Fill.positions, if_neg hopen.1, if_pos hopen.2] at hbelow
      exact hbelow _ (by simp)
    have hiff := next_lt_iff h hempty hnext
    by_cases hfits : f.fits first (marginOf indent maxWidth) w
    · rw [if_pos (hiff.mpr hfits)]
      exact (space_copied h hw hempty hfits hnext).advance hcol hempty
    · rw [if_neg (mt hiff.mp hfits)]
      exact (indentLine_copied h hw fun _ => hfits).advance hcol
        (hindent.trans hempty)

theorem step_pchr (ws esc : α → Bool) (indent maxWidth : BitVec 32) (sp : α) (nl : List α)
    (s : Loop α) : (step ws esc indent maxWidth sp nl s).pchr =
      (remaining (notWS ws) esc s.pchr).dropWhile ws := by
  simp only [step, consumeIfUnlessEscaped_eq, Loop.goTo]

/-! ### The loop -/

theorem length_step_pchr_lt {s : Loop α} {c : α} {input : List α} (hpchr : s.pchr = c :: input)
    (hc : ws c = false) :
    (step ws esc indent maxWidth sp nl s).pchr.length < s.pchr.length := by
  have hlt := length_remaining_lt (notWS ws) esc input (c := c)
    (by simp [notWS, hc])
  rw [step_pchr, hpchr]
  exact lt_of_le_of_lt (List.length_dropWhile_le ..) hlt

/-- What the loop keeps: the words of `final` are placed or still in front of it. -/
def Inv (first : Margin) (ws esc : α → Bool) (indent maxWidth : BitVec 32) (sp : α) (nl oi : List α)
    (final : Fill α) (s : Loop α) : Prop :=
  ∃ f, Represents first (marginOf indent maxWidth) sp nl oi f s ∧
    s.pchr.dropWhile ws = s.pchr ∧
    f.Below first (marginOf indent maxWidth) (2 ^ 32) (words ws esc s.pchr) ∧
    (words ws esc s.pchr).foldl (Fill.place first (marginOf indent maxWidth)) f = final

theorem Inv.step {final : Fill α} {s : Loop α}
    (h : Inv first ws esc indent maxWidth sp nl oi final s) (hmore : s.pchr ≠ []) :
    Inv first ws esc indent maxWidth sp nl oi final (step ws esc indent maxWidth sp nl s) ∧
      (IndentBlock.step ws esc indent maxWidth sp nl s).pchr.length < s.pchr.length := by
  obtain ⟨f, hrep, hskip, hbelow, hfinal⟩ := h
  obtain ⟨c, input, hpchr⟩ := List.exists_cons_of_ne_nil hmore
  have hc : ws c = false := by
    have hhead := List.head?_dropWhile_not ws s.pchr
    rw [hskip, hpchr] at hhead
    exact hhead
  rw [hpchr] at hskip
  rw [hpchr, words_of_cons hskip] at hbelow hfinal
  obtain ⟨hpos, hrest⟩ := hbelow
  refine ⟨⟨_, step_represents hrep (by rw [hpchr]) hpos, ?_, ?_, ?_⟩,
    length_step_pchr_lt hpchr hc⟩
  · rw [step_pchr, List.dropWhile_idempotent]
  · rwa [step_pchr, words_dropWhile, hpchr]
  · rwa [step_pchr, words_dropWhile, hpchr]

theorem body_spec {final : Fill α} (s : Loop α)
    (h : Inv first ws esc indent maxWidth sp nl oi final s) (hmore : s.more = true) :
    ∃ t, body ws esc indent maxWidth sp nl s = .ret t ∧
      Inv first ws esc indent maxWidth sp nl oi final t ∧ t.pchr.length < s.pchr.length := by
  have hne : s.pchr ≠ [] := by simpa [Loop.more] using hmore
  obtain ⟨hstep, hlt⟩ := h.step hne
  exact ⟨_, rfl, hstep, hlt⟩

theorem initial_represents (later : Margin) (line1indent line1maxWidth : BitVec 32) (sp : α)
    (nl oi pchr : List α) :
    Represents (marginOf line1indent line1maxWidth) later sp nl oi Fill.blank
      ⟨pchr, oi, true, 0, true, line1indent, line1maxWidth⟩ where
  blank := fun _ => rfl
  oi := (List.append_nil oi).symm
  firstLine := rfl
  indsz := rfl
  width := rfl
  empty := by simp [Fill.blank]
  curPos := by
    intro h
    cases h

theorem loop_fills {line1indent line1maxWidth : BitVec 32} {text : List α} (sp : α) (nl oi : List α)
    (hbelow : Fill.Below (marginOf line1indent line1maxWidth) (marginOf indent maxWidth) (2 ^ 32)
      Fill.blank (words ws esc text)) :
    ∃ t : Loop α, Returns (fun fuel => whileLoop Loop.more (body ws esc indent maxWidth sp nl) fuel
        ⟨text.dropWhile ws, oi, true, 0, true, line1indent, line1maxWidth⟩) t ∧
      t.pchr = [] ∧
      Represents (marginOf line1indent line1maxWidth) (marginOf indent maxWidth) sp nl oi
        ((words ws esc text).foldl
          (Fill.place (marginOf line1indent line1maxWidth) (marginOf indent maxWidth))
          Fill.blank) t := by
  obtain ⟨final, hfinal⟩ : ∃ final, final = (words ws esc text).foldl
    (Fill.place (marginOf line1indent line1maxWidth) (marginOf indent maxWidth)) Fill.blank :=
    ⟨_, rfl⟩
  obtain ⟨t, hret, hinv, hdone⟩ := whileLoop_total
    (Inv (marginOf line1indent line1maxWidth) ws esc indent maxWidth sp nl oi final)
    (fun s => s.pchr.length) body_spec
    ⟨text.dropWhile ws, oi, true, 0, true, line1indent, line1maxWidth⟩
    ⟨Fill.blank, initial_represents .., List.dropWhile_idempotent .., by
      rwa [words_dropWhile], by rw [words_dropWhile, hfinal]⟩
  have hnil : t.pchr = [] := by simpa [Loop.more] using hdone
  obtain ⟨f, hrep, _, _, hplaced⟩ := hinv
  rw [hnil, words_of_nil rfl, List.foldl_nil] at hplaced
  rw [← hfinal, ← hplaced]
  exact ⟨t, hret, hnil, hrep⟩

end Run

theorem words_ne_nil {ws esc : α → Bool} {text : List α} (h : text.dropWhile ws ≠ []) :
    words ws esc text ≠ [] := by
  obtain ⟨c, input, hcons⟩ := List.exists_cons_of_ne_nil h
  rw [words_of_cons hcons]
  exact List.cons_ne_nil _ _

/-- The words of the text on lines that are as full as their margins allow. -/
theorem indentBlock_wraps (ws esc : α → Bool) (oi : List α)
    (line1indent line1maxWidth indent maxWidth : BitVec 32) (sp : α) (nl text : List α)
    (hline1 : line1indent < line1maxWidth) (hindent : indent < maxWidth)
    (hbelow : Fill.Below (marginOf line1indent line1maxWidth) (marginOf indent maxWidth) (2 ^ 32)
      Fill.blank (words ws esc text)) :
    ∃ out, Returns (indentBlock ws esc oi line1indent line1maxWidth indent maxWidth sp nl text)
        ([], oi ++ out) ∧
      ((∀ c ∈ text, ws c = true) → out = []) ∧
      ((∃ c ∈ text, ws c = false) → ∃ lines : List (List (List α)),
        lines ≠ [] ∧ lines.flatten = words ws esc text ∧
        out = joined (marginOf line1indent line1maxWidth) (marginOf indent maxWidth) sp nl lines ∧
        Filled (marginOf line1indent line1maxWidth) (marginOf indent maxWidth) sp lines) := by
  have hargs1 : ¬ line1indent ≥ line1maxWidth := BitVec.not_le.mpr hline1
  have hargs : ¬ indent ≥ maxWidth := BitVec.not_le.mpr hindent
  by_cases hall : ∀ c ∈ text, ws c = true
  · have hskip : text.dropWhile ws = [] := List.dropWhile_eq_nil_iff.mpr hall
    refine ⟨[], ?_, fun _ => rfl, ?_⟩
    · apply Returns.of_eq
      intro fuel
      simp [indentBlock, if_neg hargs1, if_neg hargs, hskip]
    · intro h
      obtain ⟨c, hc, hws⟩ := h
      rw [hall c hc] at hws
      cases hws
  · have hskip : text.dropWhile ws ≠ [] := fun h => hall (List.dropWhile_eq_nil_iff.mp h)
    obtain ⟨t, hret, hpchr, hrep⟩ := loop_fills sp nl oi hbelow
    have hflat := Fill.foldl_place_flatten (marginOf line1indent line1maxWidth)
      (marginOf indent maxWidth) (words ws esc text) Fill.blank
    have hfilled : _ ∨ Filled (marginOf line1indent line1maxWidth) (marginOf indent maxWidth) sp _ :=
      Fill.foldl_place_filled (words ws esc text) Fill.blank (Or.inl rfl)
    generalize (words ws esc text).foldl (Fill.place (marginOf line1indent line1maxWidth)
      (marginOf indent maxWidth)) Fill.blank = final at hrep hflat hfilled
    have hflat' : final.lines.flatten = words ws esc text := hflat
    have hlines : Filled (marginOf line1indent line1maxWidth) (marginOf indent maxWidth) sp
        final.lines := by
      apply hfilled.resolve_left
      intro hblank
      rw [hblank] at hflat'
      exact words_ne_nil hskip hflat'.symm
    have hline : final.line ≠ [] := hlines.nonempty final.line (by simp [Fill.lines])
    have hoi := hrep.oi
    rw [if_neg hline] at hoi
    refine ⟨_, ?_, fun h => absurd h hall, fun _ =>
      ⟨final.lines, by simp [Fill.lines], hflat', rfl, hlines⟩⟩
    rw [← hoi, ← hpchr]
    obtain ⟨n, hn⟩ := hret
    refine ⟨n, fun fuel hfuel => ?_⟩
    simp only [indentBlock, if_neg hargs1, if_neg hargs, List.isEmpty_iff, if_neg hskip,
      hn fuel hfuel, Outcome.ret_bind, Outcome.pure_eq]

def isSpace (c : Char) : Bool := c = ' '

theorem words_example :
    words isSpace backslash "ab c\\ d".toList = ["ab".toList, "c d".toList] := by
  have hskip : "ab c\\ d".toList.dropWhile isSpace = 'a' :: "b c\\ d".toList := by decide
  have hskip' : " c\\ d".toList.dropWhile isSpace = 'c' :: "\\ d".toList := by decide
  have hfirst : unescaped (notWS isSpace) backslash ('a' :: "b c\\ d".toList) = "ab".toList := by
    decide
  have hrest : remaining (notWS isSpace) backslash ('a' :: "b c\\ d".toList) =
      " c\\ d".toList := by
    decide
  rw [words_of_cons hskip, hfirst, hrest, words_of_cons hskip']
  have hsecond : unescaped (notWS isSpace) backslash ('c' :: "\\ d".toList) = "c d".toList := by
    decide
  have hend : remaining (notWS isSpace) backslash ('c' :: "\\ d".toList) = [] := by decide
  rw [hsecond, hend, words_of_nil rfl]

theorem indentBlock_wraps_example : ∃ out,
    Returns (indentBlock isSpace backslash [] 2 6 1 5 ' ' ['\n'] "ab c\\ d".toList)
        ([], [] ++ out) ∧
      ((∀ c ∈ "ab c\\ d".toList, isSpace c = true) → out = []) ∧
      ((∃ c ∈ "ab c\\ d".toList, isSpace c = false) → ∃ lines : List (List (List Char)),
        lines ≠ [] ∧ lines.flatten = words isSpace backslash "ab c\\ d".toList ∧
        out = joined (marginOf 2 6) (marginOf 1 5) ' ' ['\n'] lines ∧
        Filled (marginOf 2 6) (marginOf 1 5) ' ' lines) :=
  indentBlock_wraps isSpace backslash [] 2 6 1 5 ' ' ['\n'] "ab c\\ d".toList (by decide)
    (by decide) (by
      rw [words_example]
      refine ⟨by decide, by decide, trivial⟩)

end IndentBlock

end Pimc
