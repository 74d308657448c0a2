import Pimc.Lib.ByteMemory

/-!
# The packet writer (lib/pimc/packets/PacketWriter.hpp)

The pointers of a writer are offsets into the packet memory, which is the state
of `MemM`.
-/

namespace Pimc

open Lib

structure PacketWriter where
  start : ℕ
  end_ : ℕ
  deriving DecidableEq, Repr

namespace PacketWriter

/-- The constructor. -/
def mk' (m : ℕ) : PacketWriter := ⟨m, m⟩

def size (pw : PacketWriter) : ℕ := pw.end_ - pw.start

def mark (pw : PacketWriter) : PacketWriter := mk' pw.end_

def data (pw : PacketWriter) : ℕ := pw.start

end PacketWriter

/-- `auto* p = next<T>(pw);` for a `T` of `sz` bytes, and the assignments through `p`. -/
def next (pw : PacketWriter) (sz : ℕ) (fields : List Assign) : MemM PacketWriter := do
  assignAt pw.end_ sz fields
  return { pw with end_ := pw.end_ + sz }

theorem next_run (start : ℕ) (front bs back : List Byte) (fields : List Assign) :
    (next ⟨start, front.length⟩ bs.length fields).run (front ++ bs ++ back) =
      .ok (⟨start, front.length + bs.length⟩, front ++ fields.foldl Assign.run bs ++ back) := by
  unfold next
  rw [run_bind_ok (assignAt_run front bs back fields)]
  rfl

/-! ### What an operation writes over zeroed memory -/

def Writes (op : PacketWriter → MemM PacketWriter) (bs : List Byte) : Prop :=
  ∀ start front back, (op ⟨start, front.length⟩).run (front ++ List.replicate bs.length 0 ++ back) =
    .ok (⟨start, front.length + bs.length⟩, front ++ bs ++ back)

namespace Writes

variable {α : Type} {op op' : PacketWriter → MemM PacketWriter} {bs cs : List Byte}

theorem next {n : ℕ} {fields : List Assign} (hlen : bs.length = n)
    (hrun : fields.foldl Assign.run (List.replicate n 0) = bs) :
    Writes (fun pw => next pw n fields) bs := by
  intro start front back
  have hnext := next_run start front (List.replicate n 0) back fields
  rw [List.length_replicate, hrun] at hnext
  rw [hlen]
  exact hnext

theorem seq (h : Writes op bs) (h' : Writes op' cs) :
    Writes (fun pw => op pw >>= op') (bs ++ cs) := by
  intro start front back
  have hzeros : front ++ List.replicate (bs ++ cs).length 0 ++ back =
      front ++ List.replicate bs.length 0 ++ (List.replicate cs.length 0 ++ back) := by
    rw [List.length_append, List.replicate_add]
    simp only [List.append_assoc]
  have hfirst := h start front (List.replicate cs.length 0 ++ back)
  have hsecond := h' start (front ++ bs) back
  rw [List.length_append, List.append_assoc _ (List.replicate cs.length 0)] at hsecond
  rw [hzeros, run_bind_ok hfirst, hsecond, List.length_append, List.append_assoc front bs cs,
    Nat.add_assoc]

theorem nothing : Writes (fun pw => pure pw) [] := by
  intro start front back
  simp only [List.length_nil, List.replicate_zero, List.append_nil, Nat.add_zero]
  rfl

theorem each {f : PacketWriter → α → MemM PacketWriter} {encode : α → List Byte} {as : List α}
    (h : ∀ a ∈ as, Writes (fun pw => f pw a) (encode a)) :
    Writes (fun pw => as.foldlM f pw) (as.flatMap encode) := by
  induction as with
  | nil => exact nothing
  | cons a as ih =>
    have hhead := h a List.mem_cons_self
    have htail := ih fun b hb => h b (List.mem_cons_of_mem a hb)
    simp only [List.foldlM_cons, List.flatMap_cons]
    exact seq hhead htail

end Writes

end Pimc
