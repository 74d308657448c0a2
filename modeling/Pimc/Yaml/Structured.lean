import Pimc.Lib.Containers
import Pimc.Lib.ErrorLog

/-!
# Structured access to YAML (lib/pimc/yaml/Structured.hpp, Structured.cpp)

A node is what the YAML library reports of a parsed document: its type, the line
of its mark, the scalar, the elements, and the entries of a mapping in document
order with duplicate keys kept. A parsed document has no undefined nodes.
-/

namespace Pimc.Yaml

open Lib Logged

/-! ### Nodes -/

inductive Node where
  | null (line : ℤ)
  | scalar (line : ℤ) (value : String)
  | sequence (line : ℤ) (elems : List Node)
  | map (line : ℤ) (entries : List (Node × Node))

namespace Node

/-- `Mark().line`. -/
def markLine : Node → ℤ
  | null line => line
  | scalar line _ => line
  | sequence line _ => line
  | map line _ => line

/-- The string of a scalar. -/
def str? : Node → Option String
  | scalar _ value => some value
  | _ => none

theorem str?_eq_some {n : Node} {s : String} :
    n.str? = some s ↔ ∃ line, n = .scalar line s := by
  cases n with
  | scalar line value => simp [str?]
  | null line => simp [str?]
  | sequence line elems => simp [str?]
  | map line entries => simp [str?]

def nodeLine (n : Node) : ℤ := if n.markLine ≠ -1 then n.markLine + 1 else -1

/-- `node[field]` on a mapping: the value of the first entry with that key. -/
def lookup (entries : List (Node × Node)) (field : String) : Option Node :=
  (entries.find? fun e => e.1.str? == some field).map Prod.snd

end Node

structure ErrorContext where
  line : ℤ
  context : String
  message : String
  deriving DecidableEq, Repr

/-- `errorAt`, with the message already formatted. -/
def errorAt (ctx : List String) (line : ℤ) (message : String) : ErrorContext where
  line := line
  context := String.join (ctx.map (· ++ ": "))
  message := message

/-! ### Contexts -/

structure ValueContext where
  node : Node
  ctx : List String

structure ScalarContext where
  node : Node
  value : String
  ctx : List String

structure MappingContext where
  name : String
  node : Node
  entries : List (Node × Node)
  ctx : List String
  knownFields : UnorderedSet String

structure SequenceContext where
  name : String
  node : Node
  elems : List Node
  ctx : List String

namespace ScalarContext

def line (c : ScalarContext) : ℤ := c.node.nodeLine

def error (c : ScalarContext) (msg : String) : ErrorContext := errorAt c.ctx c.line msg

end ScalarContext

namespace ValueContext

def root (n : Node) : ValueContext := ⟨n, []⟩

/-- The constructor that adds a description to the context of the parent. -/
def named (n : Node) (parentCtx : List String) (name : String) : ValueContext :=
  ⟨n, parentCtx ++ [name]⟩

def error (c : ValueContext) (msg : String) : ErrorContext := errorAt c.ctx c.node.nodeLine msg

/-- The error of the three getters for a node of another type. -/
def typeError {α : Type} (c : ValueContext) (name expected typ : String) :
    Except ErrorContext α :=
  if name = "" then .error (c.error s!"expecting a {expected}, not {typ}")
  else .error (c.error s!"{name} must be a {expected}, not {typ}")

def getScalar (c : ValueContext) (name : String) : Except ErrorContext ScalarContext :=
  match c.node with
  | .map _ _ => c.typeError name "scalar" "a mapping"
  | .null _ => c.typeError name "scalar" "null"
  | .scalar _ value => .ok ⟨c.node, value, c.ctx⟩
  | .sequence _ _ => c.typeError name "scalar" "a sequence"

def getMapping (c : ValueContext) (name : String) : Except ErrorContext MappingContext :=
  match c.node with
  | .map _ entries => .ok ⟨name, c.node, entries, c.ctx, UnorderedSet.empty⟩
  | .null _ => c.typeError name "mapping" "null"
  | .scalar _ _ => c.typeError name "mapping" "a scalar"
  | .sequence _ _ => c.typeError name "mapping" "a sequence"

def getSequence (c : ValueContext) (name : String) : Except ErrorContext SequenceContext :=
  match c.node with
  | .map _ _ => c.typeError name "sequence" "a mapping"
  | .null _ => c.typeError name "sequence" "null"
  | .scalar _ _ => c.typeError name "sequence" "a scalar"
  | .sequence _ elems => .ok ⟨name, c.node, elems, c.ctx⟩

end ValueContext

namespace MappingContext

def error (c : MappingContext) (msg : String) : ErrorContext := errorAt c.ctx c.node.nodeLine msg

def size (c : MappingContext) : ℕ := c.entries.length

def describe (c : MappingContext) (field : String) : String :=
  if c.name = "" then s!"field '{field}'" else s!"field '{field}' of {c.name}"

/-- The mutation of `knownFields_` in `required` and `optional`. -/
def know (c : MappingContext) (field : String) : MappingContext :=
  { c with knownFields := c.knownFields.emplace field }

def required (c : MappingContext) (field : String) :
    Except ErrorContext ValueContext × MappingContext :=
  (match Node.lookup c.entries field with
    | none => .error (c.error s!"{c.describe field} is required")
    | some node => .ok (.named node c.ctx (c.describe field)),
   c.know field)

def optional (c : MappingContext) (field : String) : Option ValueContext × MappingContext :=
  ((Node.lookup c.entries field).map fun node => .named node c.ctx (c.describe field),
   c.know field)

def items (c : MappingContext) : List (ValueContext × ValueContext) :=
  c.entries.map fun e => (⟨e.1, c.ctx⟩, ⟨e.2, c.ctx⟩)

/-- ` in name`, when the mapping has a name. -/
def inName (c : MappingContext) : String := if c.name = "" then "" else s!" in {c.name}"

/-- The body of the loop of `extraneous` for a key that is a string. -/
def checkField (c : MappingContext) (line : ℤ) (fn : String) :
    Logged ErrorContext (UnorderedMap String ℤ) Unit := do
  reportIf (!c.knownFields.contains fn)
    (errorAt c.ctx line s!"unrecognized field '{fn}'{c.inName}")
  let observed ← current
  let nfi := observed.tryEmplace fn line
  if nfi.2 then store nfi.1
  else report (errorAt c.ctx line
    s!"duplicate field '{fn}'{c.inName}, previously seen at line {(observed.find? fn).getD line}")

def checkKey (c : MappingContext) (n : Node) : Logged ErrorContext (UnorderedMap String ℤ) Unit :=
  match n with
  | .null _ => report (errorAt c.ctx n.nodeLine "mapping key may not be null")
  | .scalar _ key => c.checkField n.nodeLine key
  | .sequence _ _ => report (errorAt c.ctx n.nodeLine "mapping key may not be a sequence")
  | .map _ _ => report (errorAt c.ctx n.nodeLine "mapping key may not be another mapping")

def extraneous (c : MappingContext) : List ErrorContext :=
  (c.entries.forM (fun e => c.checkKey e.1) UnorderedMap.empty).1

end MappingContext

namespace SequenceContext

def describe (c : SequenceContext) (i : ℕ) : String :=
  if c.name = "" then s!"element #{i}" else s!"element #{i} of {c.name}"

def list (c : SequenceContext) : List ValueContext :=
  c.elems.mapIdx fun i n => .named n c.ctx (c.describe i)

end SequenceContext

/-! ### What is accepted -/

theorem typeError_ne_ok {α : Type} (c : ValueContext) (name expected typ : String) (a : α) :
    c.typeError name expected typ ≠ .ok a := by
  unfold ValueContext.typeError
  split_ifs <;> exact nofun

theorem getScalar_ok {c : ValueContext} {name : String} {s : ScalarContext} :
    c.getScalar name = .ok s ↔
      ∃ line value, c.node = .scalar line value ∧ s = ⟨c.node, value, c.ctx⟩ := by
  unfold ValueContext.getScalar
  apply Iff.intro
  · intro h
    split at h
    case h_3 hnode =>
      injection h with h
      exact ⟨_, _, hnode, h.symm⟩
    all_goals exact absurd h (typeError_ne_ok c _ _ _ s)
  · intro h'
    obtain ⟨line, value, hnode, rfl⟩ := h'
    rw [hnode]

theorem getMapping_ok {c : ValueContext} {name : String} {m : MappingContext} :
    c.getMapping name = .ok m ↔ ∃ line entries, c.node = .map line entries ∧
      m = ⟨name, c.node, entries, c.ctx, UnorderedSet.empty⟩ := by
  unfold ValueContext.getMapping
  apply Iff.intro
  · intro h
    split at h
    case h_1 hnode =>
      injection h with h
      exact ⟨_, _, hnode, h.symm⟩
    all_goals exact absurd h (typeError_ne_ok c _ _ _ m)
  · intro h'
    obtain ⟨line, entries, hnode, rfl⟩ := h'
    rw [hnode]

theorem getSequence_ok {c : ValueContext} {name : String} {q : SequenceContext} :
    c.getSequence name = .ok q ↔
      ∃ line elems, c.node = .sequence line elems ∧ q = ⟨name, c.node, elems, c.ctx⟩ := by
  unfold ValueContext.getSequence
  apply Iff.intro
  · intro h
    split at h
    case h_4 hnode =>
      injection h with h
      exact ⟨_, _, hnode, h.symm⟩
    all_goals exact absurd h (typeError_ne_ok c _ _ _ q)
  · intro h'
    obtain ⟨line, elems, hnode, rfl⟩ := h'
    rw [hnode]

theorem list_nodes (c : SequenceContext) : c.list.map (·.node) = c.elems := by
  apply List.ext_getElem
  · simp [SequenceContext.list]
  · intro i hi hi'
    simp [SequenceContext.list, ValueContext.named]

/-! ### Fields of a mapping -/

namespace MappingContext

theorem required_ok {c : MappingContext} {field : String} {v : ValueContext} :
    (c.required field).1 = .ok v ↔
      ∃ n, Node.lookup c.entries field = some n ∧ v = .named n c.ctx (c.describe field) := by
  unfold required
  cases Node.lookup c.entries field with
  | none => simp
  | some n => simp [eq_comm]

/-- A case distinction on an optional field, on the node of the field. -/
theorem optional_iff {c : MappingContext} {field : String} {P : Prop} {Q : Node → Prop} :
    ((c.optional field).1 = none ∧ P ∨ ∃ v, (c.optional field).1 = some v ∧ Q v.node) ↔
      (Node.lookup c.entries field = none ∧ P ∨
        ∃ n, Node.lookup c.entries field = some n ∧ Q n) := by
  unfold optional
  cases Node.lookup c.entries field with
  | none => simp
  | some n => simp [ValueContext.named]

theorem clean_checkKey {c : MappingContext} {n : Node} {obs obs' : UnorderedMap String ℤ} :
    Clean (c.checkKey n) obs () obs' ↔ ∃ field, n.str? = some field ∧
      field ∈ c.knownFields.toList ∧ field ∉ obs.keys ∧
      obs' = (obs.tryEmplace field n.nodeLine).1 := by
  cases n with
  | null line => simp [checkKey, Node.str?, clean_report]
  | sequence line elems => simp [checkKey, Node.str?, clean_report]
  | map line entries => simp [checkKey, Node.str?, clean_report]
  | scalar line value =>
    have hknown : (!c.knownFields.contains value) = false ↔ value ∈ c.knownFields.toList := by
      rw [← UnorderedSet.contains_iff]
      simp
    have hnew := UnorderedMap.tryEmplace_snd obs value (Node.scalar line value).nodeLine
    simp only [checkKey, checkField, clean_bind, clean_reportIf, clean_current, Node.str?, hknown,
      Option.some.injEq]
    apply Iff.intro
    · intro h
      obtain ⟨_, _, ⟨hmem, rfl⟩, _, _, ⟨rfl, rfl⟩, hlast⟩ := h
      split_ifs at hlast with hins
      · exact ⟨value, rfl, hmem, hnew.mp hins, clean_store.mp hlast⟩
      · exact absurd hlast clean_report
    · intro h
      obtain ⟨field, rfl, hmem, hnot, rfl⟩ := h
      refine ⟨(), obs, ⟨hmem, rfl⟩, obs, obs, ⟨rfl, rfl⟩, ?_⟩
      rw [if_pos (hnew.mpr hnot)]
      exact clean_store.mpr rfl

theorem clean_checkKeys {c : MappingContext} {entries : List (Node × Node)}
    {obs : UnorderedMap String ℤ} :
    (∃ obs', Clean (entries.forM fun e => c.checkKey e.1) obs () obs') ↔
      ∃ fields, entries.map (fun e => e.1.str?) = fields.map some ∧
        (obs.keys ++ fields).Nodup ∧ ∀ f ∈ fields, f ∈ c.knownFields.toList := by
  induction entries generalizing obs with
  | nil =>
    simp only [clean_forM_nil, List.map_nil]
    apply Iff.intro
    · intro _
      refine ⟨[], rfl, ?_, by simp⟩
      rw [List.append_nil]
      exact obs.nodup
    · intro _
      exact ⟨obs, rfl⟩
  | cons e entries ih =>
    have hkeys : ∀ field line, field ∉ obs.keys →
        (obs.tryEmplace field line).1.keys = obs.keys ++ [field] := by
      intro field line hnot
      rw [UnorderedMap.keys_tryEmplace, if_neg hnot]
    simp only [clean_forM_cons, clean_checkKey]
    apply Iff.intro
    · intro h
      obtain ⟨obs', t, ⟨field, hstr, hmem, hnot, rfl⟩, hrest⟩ := h
      obtain ⟨fields, hmap, hnodup, hknown⟩ := ih.mp ⟨obs', hrest⟩
      rw [hkeys field _ hnot, List.append_assoc] at hnodup
      refine ⟨field :: fields, ?_, hnodup, ?_⟩
      · rw [List.map_cons, List.map_cons, hstr, hmap]
      · intro f hf
        rcases List.mem_cons.mp hf with rfl | hf
        · exact hmem
        · exact hknown f hf
    · intro h
      obtain ⟨fields, hmap, hnodup, hknown⟩ := h
      cases fields with
      | nil => cases hmap
      | cons field fields =>
        obtain ⟨hstr, hmap⟩ := List.cons.inj hmap
        have hnot : field ∉ obs.keys := by
          intro hin
          exact (List.nodup_append.mp hnodup).2.2 field hin field List.mem_cons_self rfl
        have hrest : (obs.keys ++ [field] ++ fields).Nodup := by
          rwa [List.append_assoc]
        rw [← hkeys field e.1.nodeLine hnot] at hrest
        obtain ⟨obs', hclean⟩ := ih.mpr ⟨fields, hmap, hrest,
          fun f hf => hknown f (List.mem_cons_of_mem field hf)⟩
        exact ⟨obs', _, ⟨field, hstr, hknown field List.mem_cons_self, hnot, rfl⟩, hclean⟩

/-- The keys of a mapping with no extraneous fields are known strings, each there once. -/
theorem extraneous_eq_nil_iff {c : MappingContext} : c.extraneous = [] ↔
    ∃ fields : List String, c.entries.map (fun e => e.1.str?) = fields.map some ∧
      fields.Nodup ∧ ∀ f ∈ fields, f ∈ c.knownFields.toList := by
  unfold extraneous
  rw [errors_eq_nil_iff, clean_checkKeys]
  rfl

end MappingContext

end Pimc.Yaml
