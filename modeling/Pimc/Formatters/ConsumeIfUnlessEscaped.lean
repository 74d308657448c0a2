import Mathlib.Data.BitVec
import Mathlib.Data.List.TakeWhile

/-!
# Scanning up to an unescaped symbol (lib/pimc/formatters/ConsumeIfUnlessEscaped.hpp)

The model follows the loop of the source. The specification is written over
the input with its marks: each symbol, whether it is escaped, and the symbol
after it.
-/

namespace Pimc

namespace ConsumeIfUnlessEscaped

variable {α σ : Type}

/-- `count`, `e` while `escaping` is set, and the state `cons` works on. -/
structure Scan (α σ : Type) where
  count : BitVec 32
  pending : Option α
  out : σ

-- `std::invoke(cons, c); ++count;`.
def Scan.consume (cons : σ → α → σ) (s : Scan α σ) (c : α) : Scan α σ :=
  { s with count := s.count + 1, out := cons s.out c }

/-- The returned tuple, and what `cons` left behind. -/
structure Consumed (α σ : Type) where
  count : BitVec 32
  first : List α
  out : σ

def loop (accept escape : α → Bool) (cons : σ → α → σ) : Scan α σ → List α → Consumed α σ
  | s, [] =>
    let s := match s.pending with
      | some e => s.consume cons e
      | none => s
    ⟨s.count, [], s.out⟩
  | s, c :: first =>
    match s.pending with
    | none =>
      if escape c then loop accept escape cons { s with pending := some c } first
      else if !accept c then ⟨s.count, c :: first, s.out⟩
      else loop accept escape cons (s.consume cons c) first
    | some e =>
      let s := if accept c && !escape c then s.consume cons e else s
      let s := { s with pending := none }
      loop accept escape cons (s.consume cons c) first

end ConsumeIfUnlessEscaped

open ConsumeIfUnlessEscaped

variable {α σ : Type}

def consumeIfUnlessEscaped (accept escape : α → Bool) (cons : σ → α → σ) (out : σ)
    (input : List α) : Consumed α σ :=
  loop accept escape cons ⟨0, none, out⟩ input

namespace ConsumeIfUnlessEscaped

/-! ### Marked input -/

structure Mark (α : Type) where
  symbol : α
  escaped : Bool
  next : Option α

/-- A symbol is escaped when the symbol before it is an escape that is not itself escaped. -/
def marks (escape : α → Bool) : Bool → List α → List (Mark α)
  | _, [] => []
  | escaped, c :: input =>
    ⟨c, escaped, input.head?⟩ :: marks escape (escape c && !escaped) input

section Spec

variable (accept escape : α → Bool)

def Mark.stops (m : Mark α) : Bool := !m.escaped && !escape m.symbol && !accept m.symbol

-- An escape symbol in front of `c` stands for itself: there was nothing to escape.
def idle (c : α) : Bool := accept c && !escape c

def Mark.kept (m : Mark α) : Bool :=
  m.escaped || !escape m.symbol || m.next.all (idle accept escape)

def keptOf (ms : List (Mark α)) : List α :=
  ((ms.takeWhile fun m => !m.stops accept escape).filter (Mark.kept accept escape)).map Mark.symbol

def restOf (ms : List (Mark α)) : List α :=
  (ms.dropWhile fun m => !m.stops accept escape).map Mark.symbol

/-- The symbols in front of the stop without the escapes that were used up. -/
def unescaped (input : List α) : List α := keptOf accept escape (marks escape false input)

/-- The input from the first symbol on that is not escaped, no escape and not accepted. -/
def remaining (input : List α) : List α := restOf accept escape (marks escape false input)

def quote (e : α) (s : List α) : List α :=
  s.flatMap fun c => if !accept c || escape c then [e, c] else [c]

end Spec

variable {accept escape : α → Bool} {cons : σ → α → σ}

theorem map_symbol_marks (escaped : Bool) (input : List α) :
    (marks escape escaped input).map Mark.symbol = input := by
  induction input generalizing escaped with
  | nil => rfl
  | cons c input ih => simp only [marks, List.map_cons, ih]

theorem keptOf_cons_of_stops {m : Mark α} {ms : List (Mark α)} (h : m.stops accept escape = true) :
    keptOf accept escape (m :: ms) = [] := by
  simp only [keptOf, List.takeWhile_cons, h, Bool.not_true, Bool.false_eq_true, if_false,
    List.filter_nil, List.map_nil]

theorem keptOf_cons {m : Mark α} {ms : List (Mark α)} (h : m.stops accept escape = false) :
    keptOf accept escape (m :: ms) =
      (if m.kept accept escape then [m.symbol] else []) ++ keptOf accept escape ms := by
  simp only [keptOf, List.takeWhile_cons, h, Bool.not_false, if_true, List.filter_cons]
  split_ifs
  · rw [List.map_cons, List.singleton_append]
  · rw [List.nil_append]

theorem restOf_cons_of_stops {m : Mark α} {ms : List (Mark α)} (h : m.stops accept escape = true) :
    restOf accept escape (m :: ms) = (m :: ms).map Mark.symbol := by
  simp only [restOf, List.dropWhile_cons, h, Bool.not_true, Bool.false_eq_true, if_false]

theorem restOf_cons {m : Mark α} {ms : List (Mark α)} (h : m.stops accept escape = false) :
    restOf accept escape (m :: ms) = restOf accept escape ms := by
  simp only [restOf, List.dropWhile_cons, h, Bool.not_false, if_true]

theorem stops_of_escaped {m : Mark α} (h : m.escaped = true) :
    m.stops accept escape = false := by
  simp only [Mark.stops, h, Bool.not_true, Bool.false_and]

/-! ### The loop -/

-- The pending escape in front of what is left of the input.
def held (accept escape : α → Bool) (pending : Option α) (input : List α) : List α :=
  pending.toList.filter fun _ => input.head?.all (idle accept escape)

def Consumed.ofScan (cons : σ → α → σ) (s : Scan α σ) (passed rest : List α) : Consumed α σ :=
  ⟨s.count + BitVec.ofNat 32 passed.length, rest, passed.foldl cons s.out⟩

theorem Consumed.ofScan_consume (s : Scan α σ) (c : α) (passed rest : List α) :
    ofScan cons (s.consume cons c) passed rest = ofScan cons s (c :: passed) rest := by
  have hone : BitVec.ofNat 32 1 = 1 := rfl
  simp only [ofScan, Scan.consume, List.length_cons, List.foldl_cons, BitVec.ofNat_add, hone]
  rw [add_assoc, add_comm (1 : BitVec 32)]

theorem loop_eq (s : Scan α σ) (input : List α) :
    loop accept escape cons s input =
      Consumed.ofScan cons s
        (held accept escape s.pending input ++
          keptOf accept escape (marks escape s.pending.isSome input))
        (restOf accept escape (marks escape s.pending.isSome input)) := by
  induction input generalizing s with
  | nil =>
    cases hp : s.pending with
    | none => simp [loop, hp, held, marks, keptOf, restOf, Consumed.ofScan]
    | some e => simp [loop, hp, held, marks, keptOf, restOf, Consumed.ofScan, Scan.consume]
  | cons c input ih =>
    cases hp : s.pending with
    | none =>
      have hheld : held accept escape (none : Option α) (c :: input) = [] := rfl
      simp only [loop, hp, hheld, List.nil_append, Option.isSome_none, marks, Bool.not_false,
        Bool.and_true]
      by_cases he : escape c = true
      · have hgo : Mark.stops accept escape ⟨c, false, input.head?⟩ = false := by
          simp [Mark.stops, he]
        rw [if_pos he, ih, keptOf_cons hgo, restOf_cons hgo, he]
        simp [Mark.kept, he, held, Consumed.ofScan, List.filter_cons]
      · rw [Bool.not_eq_true] at he
        by_cases ha : accept c = true
        · have hgo : Mark.stops accept escape ⟨c, false, input.head?⟩ = false := by
            simp [Mark.stops, ha]
          have hkept : Mark.kept accept escape ⟨c, false, input.head?⟩ = true := by
            simp [Mark.kept, he]
          simp only [he, ha, Bool.not_true, Bool.false_eq_true, if_false]
          rw [ih, keptOf_cons hgo, restOf_cons hgo, hkept, if_pos rfl, Consumed.ofScan_consume]
          simp only [Scan.consume, hp, held, Option.toList_none, List.filter_nil, List.nil_append,
            Option.isSome_none, List.singleton_append]
        · rw [Bool.not_eq_true] at ha
          have hstop : Mark.stops accept escape ⟨c, false, input.head?⟩ = true := by
            simp [Mark.stops, he, ha]
          simp only [he, ha, Bool.not_false, Bool.false_eq_true, if_false, if_true]
          rw [keptOf_cons_of_stops hstop, restOf_cons_of_stops hstop]
          simp [Consumed.ofScan, map_symbol_marks]
    | some e =>
      have hgo : Mark.stops accept escape ⟨c, true, input.head?⟩ = false := stops_of_escaped rfl
      have hkept : Mark.kept accept escape ⟨c, true, input.head?⟩ = true := by simp [Mark.kept]
      simp only [loop, hp, Option.isSome_some, marks, Bool.not_true, Bool.and_false]
      rw [keptOf_cons hgo, restOf_cons hgo, hkept, if_pos rfl, List.singleton_append]
      by_cases hidle : (accept c && !escape c) = true
      · have hheld : held accept escape (some e) (c :: input) = [e] := by simp [held, idle, hidle]
        rw [if_pos hidle, ih, hheld, List.singleton_append, Consumed.ofScan_consume,
          ← Consumed.ofScan_consume s]
        rfl
      · have hheld : held accept escape (some e) (c :: input) = [] := by simp [held, idle, hidle]
        rw [if_neg hidle, ih, hheld, List.nil_append, Consumed.ofScan_consume]
        rfl

theorem consumeIfUnlessEscaped_eq (accept escape : α → Bool) (cons : σ → α → σ) (out : σ)
    (input : List α) :
    consumeIfUnlessEscaped accept escape cons out input =
      ⟨BitVec.ofNat 32 (unescaped accept escape input).length, remaining accept escape input,
        (unescaped accept escape input).foldl cons out⟩ := by
  have hzero (x : BitVec 32) : 0 + x = x := BitVec.zero_add x
  rw [consumeIfUnlessEscaped, loop_eq]
  simp only [held, Option.toList_none, List.filter_nil, List.nil_append, Option.isSome_none,
    Consumed.ofScan, hzero, unescaped, remaining]

/-! ### Quoted strings -/

theorem unescaped_quote_cons (accept : α → Bool) {e : α} (c : α) (s rest : List α) (he : escape e = true) :
    unescaped accept escape (quote accept escape e (c :: s) ++ rest) =
        c :: unescaped accept escape (quote accept escape e s ++ rest) ∧
      remaining accept escape (quote accept escape e (c :: s) ++ rest) =
        remaining accept escape (quote accept escape e s ++ rest) := by
  have hquote : quote accept escape e (c :: s) ++ rest =
      (if !accept c || escape c then [e, c] else [c]) ++ (quote accept escape e s ++ rest) := by
    rw [quote, List.flatMap_cons, List.append_assoc]
    rfl
  rw [hquote]
  obtain ⟨tail, htail⟩ : ∃ tail, tail = quote accept escape e s ++ rest := ⟨_, rfl⟩
  rw [← htail]
  by_cases hc : (!accept c || escape c) = true
  · have hgo : Mark.stops accept escape ⟨e, false, some c⟩ = false := by simp [Mark.stops, he]
    have hidle : idle accept escape c = false := by
      rw [idle, ← Bool.not_eq_true', Bool.not_and, Bool.not_not]
      exact hc
    have hdrop : Mark.kept accept escape ⟨e, false, some c⟩ = false := by
      simp [Mark.kept, he, hidle]
    have hgoc : Mark.stops accept escape ⟨c, true, tail.head?⟩ = false := stops_of_escaped rfl
    have hkeep : Mark.kept accept escape ⟨c, true, tail.head?⟩ = true := by simp [Mark.kept]
    rw [if_pos hc]
    simp only [unescaped, remaining, List.cons_append, List.nil_append, marks, List.head?_cons, he,
      Bool.not_false, Bool.and_self, Bool.not_true, Bool.and_false]
    rw [keptOf_cons hgo, keptOf_cons hgoc, hdrop, hkeep, restOf_cons hgo, restOf_cons hgoc]
    exact ⟨rfl, rfl⟩
  · rw [if_neg hc]
    rw [Bool.not_eq_true, Bool.or_eq_false_iff, Bool.not_eq_false'] at hc
    obtain ⟨ha, hne⟩ := hc
    have hgo : Mark.stops accept escape ⟨c, false, tail.head?⟩ = false := by simp [Mark.stops, ha]
    have hkeep : Mark.kept accept escape ⟨c, false, tail.head?⟩ = true := by simp [Mark.kept, hne]
    simp only [unescaped, remaining, List.cons_append, List.nil_append, marks, hne, Bool.false_and]
    rw [keptOf_cons hgo, hkeep, restOf_cons hgo]
    exact ⟨rfl, rfl⟩

theorem unescaped_quote {e : α} (s : List α) {rest : List α} (he : escape e = true)
    (hrest : ∀ c ∈ rest.head?, accept c = false ∧ escape c = false) :
    unescaped accept escape (quote accept escape e s ++ rest) = s ∧
      remaining accept escape (quote accept escape e s ++ rest) = rest := by
  induction s with
  | nil =>
    cases rest with
    | nil => exact ⟨rfl, rfl⟩
    | cons c rest =>
      obtain ⟨ha, hne⟩ := hrest c rfl
      have hstop : Mark.stops accept escape ⟨c, false, rest.head?⟩ = true := by
        simp [Mark.stops, ha, hne]
      apply And.intro
      · exact keptOf_cons_of_stops hstop
      · exact (restOf_cons_of_stops hstop).trans (map_symbol_marks false (c :: rest))
  | cons c s ih =>
    obtain ⟨hkept, hleft⟩ := unescaped_quote_cons accept c s rest he
    rw [hkept, hleft, ih.1, ih.2]
    exact ⟨rfl, rfl⟩

/-! ### The count -/

/-- The number of symbols in front of the stop that are not used up as escapes. -/
def symbols (accept escape : α → Bool) (input : List α) : ℕ :=
  ((marks escape false input).takeWhile fun m => !m.stops accept escape).countP
    (Mark.kept accept escape)

theorem unescaped_length (input : List α) :
    (unescaped accept escape input).length = symbols accept escape input := by
  rw [unescaped, keptOf, symbols, List.length_map, List.countP_eq_length_filter]

theorem ofNat_toNat_eq_iff (n : ℕ) : (BitVec.ofNat 32 n).toNat = n ↔ n < 2 ^ 32 := by
  rw [BitVec.toNat_ofNat]
  exact Nat.mod_eq_iff_lt (by decide)

/-! ### Where the scan stops -/

theorem remaining_eq_drop (input : List α) :
    remaining accept escape input = input.drop
      ((marks escape false input).takeWhile fun m => !m.stops accept escape).length := by
  have hsplit := List.takeWhile_append_dropWhile
    (p := fun m : Mark α => !m.stops accept escape) (l := marks escape false input)
  have hdrop := congrArg (List.drop
    ((marks escape false input).takeWhile fun m => !m.stops accept escape).length) hsplit
  rw [List.drop_left] at hdrop
  rw [remaining, restOf, hdrop, List.map_drop, map_symbol_marks]

theorem length_remaining_lt (accept escape : α → Bool) {c : α} (input : List α)
    (h : accept c = true) :
    (remaining accept escape (c :: input)).length < (c :: input).length := by
  have hgo : Mark.stops accept escape ⟨c, false, input.head?⟩ = false := by simp [Mark.stops, h]
  have hlen : (marks escape (escape c && !false) input).length = input.length := by
    rw [← List.length_map (f := Mark.symbol), map_symbol_marks]
  rw [remaining, marks, restOf_cons hgo, restOf, List.length_map, List.length_cons, ← hlen]
  exact Nat.lt_succ_of_le (List.length_dropWhile_le ..)

/-- At the end of the input, or at a symbol that is neither escaped nor accepted. -/
def StopsAt (accept escape : α → Bool) (input : List α) (n : ℕ) : Prop :=
  n = input.length ∨ ∃ m, (marks escape false input)[n]? = some m ∧ m.escaped = false ∧
    accept m.symbol = false

theorem exists_stopsAt (accept escape : α → Bool) (input : List α) :
    ∃ n, StopsAt accept escape input n ∧ remaining accept escape input = input.drop n := by
  obtain ⟨before, hbefore⟩ : ∃ before,
    before = (marks escape false input).takeWhile fun m => !m.stops accept escape := ⟨_, rfl⟩
  obtain ⟨after, hafter⟩ : ∃ after,
    after = (marks escape false input).dropWhile fun m => !m.stops accept escape := ⟨_, rfl⟩
  have hsplit : marks escape false input = before ++ after := by
    rw [hbefore, hafter, List.takeWhile_append_dropWhile]
  refine ⟨before.length, ?_, hbefore ▸ remaining_eq_drop input⟩
  cases after with
  | nil =>
    left
    rw [List.append_nil] at hsplit
    rw [← hsplit, ← List.length_map (f := Mark.symbol), map_symbol_marks]
  | cons m after =>
    right
    have hhead := List.head?_dropWhile_not (fun m : Mark α => !m.stops accept escape)
      (marks escape false input)
    rw [← hafter] at hhead
    have hstop : m.stops accept escape = true := by simpa using hhead
    simp only [Mark.stops, Bool.and_eq_true, Bool.not_eq_true'] at hstop
    refine ⟨m, ?_, hstop.1.1, hstop.2⟩
    rw [hsplit, List.getElem?_append_right (le_refl _), Nat.sub_self, List.getElem?_cons_zero]

/-! ### What the caller is promised -/

/-- The scan of `s`, quoted and followed by `rest`. -/
def Inverts (accept escape : α → Bool) (e : α) (s rest : List α) : Prop :=
  ∀ (σ : Type) (cons : σ → α → σ) (out : σ),
    let r := consumeIfUnlessEscaped accept escape cons out (quote accept escape e s ++ rest)
    r.out = s.foldl cons out ∧ r.count.toNat = s.length ∧ r.first = rest

def CountsAndStops (accept escape : α → Bool) (input : List α) : Prop :=
  ∃ (passed : List α) (n : ℕ), StopsAt accept escape input n ∧
    ∀ (σ : Type) (cons : σ → α → σ) (out : σ),
      let r := consumeIfUnlessEscaped accept escape cons out input
      r.out = passed.foldl cons out ∧ r.count.toNat = passed.length ∧ r.first = input.drop n

theorem inverts_iff {e : α} (s : List α) {rest : List α} (he : escape e = true)
    (hrest : ∀ c ∈ rest.head?, accept c = false ∧ escape c = false) :
    Inverts accept escape e s rest ↔ s.length < 2 ^ 32 := by
  obtain ⟨hkept, hleft⟩ := unescaped_quote s he hrest
  rw [← ofNat_toNat_eq_iff]
  apply Iff.intro
  · intro h
    obtain ⟨_, hcount, _⟩ := h Unit (fun _ _ => ()) ()
    rwa [consumeIfUnlessEscaped_eq, hkept] at hcount
  · intro h σ cons out
    simp only [consumeIfUnlessEscaped_eq, hkept, hleft]
    exact ⟨trivial, h, trivial⟩

theorem countsAndStops_iff (input : List α) :
    CountsAndStops accept escape input ↔ symbols accept escape input < 2 ^ 32 := by
  rw [← ofNat_toNat_eq_iff, ← unescaped_length]
  apply Iff.intro
  · intro h
    obtain ⟨passed, n, _, hr⟩ := h
    obtain ⟨hout, hcount, _⟩ := hr (List α) (fun out c => c :: out) []
    rw [consumeIfUnlessEscaped_eq] at hout hcount
    simp only [List.foldl_flip_cons_eq_append', List.append_nil] at hout
    rwa [← List.reverse_injective hout] at hcount
  · intro h
    obtain ⟨n, hstop, hleft⟩ := exists_stopsAt accept escape input
    refine ⟨unescaped accept escape input, n, hstop, ?_⟩
    intro σ cons out
    simp only [consumeIfUnlessEscaped_eq]
    exact ⟨trivial, h, hleft⟩

/-- The count is an `unsigned`: the scan keeps its promises up to `2 ^ 32` symbols. -/
theorem consumeIfUnlessEscaped_exact (accept escape : α → Bool) :
    (∀ (e : α) (s rest : List α), escape e = true →
      (∀ c ∈ rest.head?, accept c = false ∧ escape c = false) →
      (Inverts accept escape e s rest ↔ s.length < 2 ^ 32)) ∧
    ∀ input, CountsAndStops accept escape input ↔ symbols accept escape input < 2 ^ 32 :=
  ⟨fun _ s _ he hrest => inverts_iff s he hrest, countsAndStops_iff⟩

def notSpace (c : Char) : Bool := c ≠ ' '

def backslash (c : Char) : Bool := c = '\\'

theorem consumeIfUnlessEscaped_exact_example :
    Inverts notSpace backslash '\\' "a b\\".toList " c".toList ∧
      CountsAndStops notSpace backslash "\\ a b".toList := by
  obtain ⟨hinv, hcount⟩ := consumeIfUnlessEscaped_exact notSpace backslash
  have hrest : ∀ c ∈ " c".toList.head?, notSpace c = false ∧ backslash c = false := by
    intro c hc
    obtain rfl : ' ' = c := Option.some.inj hc
    exact ⟨rfl, rfl⟩
  apply And.intro
  · exact (hinv '\\' "a b\\".toList " c".toList (by decide) hrest).mpr (by decide)
  · have hsymbols : symbols notSpace backslash "\\ a b".toList = 2 := by decide
    exact (hcount "\\ a b".toList).mpr (by rw [hsymbols]; omega)

theorem inverts_counterexample :
    ¬ Inverts notSpace backslash '\\' (List.replicate (2 ^ 32) 'a') [] := by
  intro h
  have hlt := (inverts_iff _ (by decide) (by simp)).mp h
  rw [List.length_replicate] at hlt
  exact absurd hlt (lt_irrefl _)

end ConsumeIfUnlessEscaped

end Pimc
