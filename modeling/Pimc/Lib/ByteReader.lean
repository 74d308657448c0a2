import Mathlib.Data.List.Basic
import Pimc.Lib.ByteOrder

/-!
# Reading a byte format back

`Decodes r bs a`: the reader `r` takes exactly `bs` from the front of any input
and returns `a`.
-/

namespace Pimc.Lib

abbrev Reader := StateT (List Byte) Option

namespace Reader

def u8 : Reader Byte
  | b :: rest => some (b, rest)
  | [] => none

def u16 : Reader (BitVec 16)
  | b0 :: b1 :: rest => some (ntohs (load16 b0 b1), rest)
  | _ => none

def u32 : Reader (BitVec 32)
  | b0 :: b1 :: b2 :: b3 :: rest => some (ntohl (load32 b0 b1 b2 b3), rest)
  | _ => none

def check (p : Bool) : Reader Unit := fun bs => if p then some ((), bs) else none

def times {α : Type} : ℕ → Reader α → Reader (List α)
  | 0, _ => pure []
  | n + 1, r => do
    let a ← r
    let as ← times n r
    return a :: as

end Reader

open Reader

variable {α β γ : Type}

def Decodes (r : Reader α) (bs : List Byte) (a : α) : Prop :=
  ∀ rest, r.run (bs ++ rest) = some (a, rest)

namespace Decodes

theorem pure (a : α) : Decodes (pure a) [] a := fun _ => rfl

theorem bind {r : Reader α} {k : α → Reader β} {bs cs : List Byte} {a : α} {b : β}
    (hr : Decodes r bs a) (hk : Decodes (k a) cs b) : Decodes (r >>= k) (bs ++ cs) b := by
  intro rest
  have hfirst := hr (cs ++ rest)
  rw [List.append_assoc, StateT.run_bind, hfirst]
  exact hk rest

theorem ret {r : Reader α} {bs : List Byte} {a : α} (hr : Decodes r bs a) (f : α → β) :
    Decodes (r >>= fun x => Pure.pure (f x)) bs (f a) := by
  have h : Decodes (r >>= fun x => Pure.pure (f x)) (bs ++ []) (f a) := bind hr (pure (f a))
  rwa [List.append_nil] at h

theorem u8 (v : Byte) : Decodes u8 [v] v := fun _ => rfl

theorem u16 (v : BitVec 16) : Decodes u16 (be16 v) v := by
  intro rest
  show some (ntohs (load16 (v.extractLsb' 8 8) (v.extractLsb' 0 8)), rest) = some (v, rest)
  rw [ntohs_load16, append_extract16]

theorem u32 (v : BitVec 32) : Decodes u32 (be32 v) v := by
  intro rest
  show some (ntohl (load32 (v.extractLsb' 24 8) (v.extractLsb' 16 8) (v.extractLsb' 8 8)
    (v.extractLsb' 0 8)), rest) = some (v, rest)
  rw [ntohl_load32, append_extract32]

theorem check {p : Bool} (hp : p = true) : Decodes (check p) [] () := by
  intro rest
  show (if p then some ((), rest) else none) = some ((), rest)
  rw [if_pos hp]

theorem times {r : Reader β} {encode : α → List Byte} {f : α → β} {as : List α}
    (h : ∀ a ∈ as, Decodes r (encode a) (f a)) :
    Decodes (times as.length r) (as.flatMap encode) (as.map f) := by
  induction as with
  | nil => exact pure []
  | cons a as ih =>
    have hhead := h a List.mem_cons_self
    have htail := ih fun b hb => h b (List.mem_cons_of_mem a hb)
    rw [List.flatMap_cons]
    apply bind hhead
    exact ret htail (f a :: ·)

end Decodes

end Pimc.Lib
