import Pimc.Lib.RecordBits
import Pimc.Packets.HdrViews
import Pimc.Packets.IPv4PIMPacket

/-!
# The IPv4 header writer (lib/pimc/packets/IPv4HdrWriter.hpp) and its view

Writer and view have a Linux version over `iphdr` and a macOS version over `ip`,
which has `ip_tos`, `ip_len`, `ip_id`, `ip_off`, `ip_ttl`, `ip_p`, `ip_sum`,
`ip_src` and `ip_dst` at the bytes 1, 2, 4, 6, 8, 9, 10, 12 and 16. A setter is
the assignment that it makes to the header.
-/

namespace Pimc

open Lib

/-! ### Linux -/

namespace Iphdr

def ihl : BitField := ⟨0, 0, 4⟩

def version : BitField := ⟨0, 4, 4⟩

end Iphdr

namespace IPv4HdrWriter

/-- The assignments of the constructor. -/
def construct : List Assign := [Iphdr.version.assign 4, Iphdr.ihl.assign 5]

def ihl (ihlv : Byte) : Assign := Iphdr.ihl.assign (0xf &&& ihlv)

def tos (tosv : Byte) : Assign := .u8 1 tosv

def totalLen (lenv : BitVec 16) : Assign := .u16 2 lenv

def id (idv : BitVec 16) : Assign := .u16 4 idv

def flagsAndFragOff (ffoffv : BitVec 16) : Assign := .u16 6 ffoffv

def ttl (ttlv : Byte) : Assign := .u8 8 ttlv

def protocol (protocolv : Byte) : Assign := .u8 9 protocolv

def hdrChecksum (hcsv : BitVec 16) : Assign := .u16 10 hcsv

def saddr (saddrv : BitVec 32) : Assign := .u32 12 saddrv

def daddr (daddrv : BitVec 32) : Assign := .u32 16 daddrv

end IPv4HdrWriter

/-! ### macOS -/

namespace MacOS

namespace Ip

def ip_hl : BitField := ⟨0, 0, 4⟩

def ip_v : BitField := ⟨0, 4, 4⟩

end Ip

namespace IPv4HdrWriter

def construct : List Assign := [Ip.ip_v.assign 4, Ip.ip_hl.assign 5]

-- the member is `ip_v`, and not `ip_hl`
def ihl (ihlv : Byte) : Assign := Ip.ip_v.assign (0xf &&& ihlv)

def tos (tosv : Byte) : Assign := .u8 1 tosv

def totalLen (lenv : BitVec 16) : Assign := .u16 2 lenv

def id (idv : BitVec 16) : Assign := .u16 4 idv

def flagsAndFragOff (ffoffv : BitVec 16) : Assign := .u16 6 ffoffv

def ttl (ttlv : Byte) : Assign := .u8 8 ttlv

def protocol (protocolv : Byte) : Assign := .u8 9 protocolv

def hdrChecksum (hcsv : BitVec 16) : Assign := .u16 10 hcsv

def saddr (saddrv : BitVec 32) : Assign := .u32 12 saddrv

def daddr (daddrv : BitVec 32) : Assign := .u32 16 daddrv

end IPv4HdrWriter

namespace IPv4HdrView

def ihl (ipHdr : ℕ) : ReadM Byte := Ip.ip_hl.readAt ipHdr

def version (ipHdr : ℕ) : ReadM Byte := Ip.ip_v.readAt ipHdr

def tos (ipHdr : ℕ) : ReadM Byte := u8At (ipHdr + 1)

def totalLen (ipHdr : ℕ) : ReadM (BitVec 16) := u16At (ipHdr + 2)

def id (ipHdr : ℕ) : ReadM (BitVec 16) := u16At (ipHdr + 4)

def flagsAndFragOff (ipHdr : ℕ) : ReadM (BitVec 16) := u16At (ipHdr + 6)

def ttl (ipHdr : ℕ) : ReadM Byte := u8At (ipHdr + 8)

def protocol (ipHdr : ℕ) : ReadM Byte := u8At (ipHdr + 9)

def hdrChecksum (ipHdr : ℕ) : ReadM (BitVec 16) := u16At (ipHdr + 10)

def saddr (ipHdr : ℕ) : ReadM (BitVec 32) := u32At (ipHdr + 12)

def daddr (ipHdr : ℕ) : ReadM (BitVec 32) := u32At (ipHdr + 16)

end IPv4HdrView

end MacOS

/-! ### Calls of the setters -/

inductive Platform where
  | linux
  | macOS
  deriving DecidableEq, Repr

inductive HdrSetter where
  | ihl (ihlv : Byte)
  | tos (tosv : Byte)
  | totalLen (lenv : BitVec 16)
  | id (idv : BitVec 16)
  | flagsAndFragOff (ffoffv : BitVec 16)
  | ttl (ttlv : Byte)
  | protocol (protocolv : Byte)
  | hdrChecksum (hcsv : BitVec 16)
  | saddr (saddrv : BitVec 32)
  | daddr (daddrv : BitVec 32)
  deriving DecidableEq, Repr

namespace Platform

def construct : Platform → List Assign
  | linux => IPv4HdrWriter.construct
  | macOS => MacOS.IPv4HdrWriter.construct

def call : Platform → HdrSetter → Assign
  | linux, .ihl ihlv => IPv4HdrWriter.ihl ihlv
  | linux, .tos tosv => IPv4HdrWriter.tos tosv
  | linux, .totalLen lenv => IPv4HdrWriter.totalLen lenv
  | linux, .id idv => IPv4HdrWriter.id idv
  | linux, .flagsAndFragOff ffoffv => IPv4HdrWriter.flagsAndFragOff ffoffv
  | linux, .ttl ttlv => IPv4HdrWriter.ttl ttlv
  | linux, .protocol protocolv => IPv4HdrWriter.protocol protocolv
  | linux, .hdrChecksum hcsv => IPv4HdrWriter.hdrChecksum hcsv
  | linux, .saddr saddrv => IPv4HdrWriter.saddr saddrv
  | linux, .daddr daddrv => IPv4HdrWriter.daddr daddrv
  | macOS, .ihl ihlv => MacOS.IPv4HdrWriter.ihl ihlv
  | macOS, .tos tosv => MacOS.IPv4HdrWriter.tos tosv
  | macOS, .totalLen lenv => MacOS.IPv4HdrWriter.totalLen lenv
  | macOS, .id idv => MacOS.IPv4HdrWriter.id idv
  | macOS, .flagsAndFragOff ffoffv => MacOS.IPv4HdrWriter.flagsAndFragOff ffoffv
  | macOS, .ttl ttlv => MacOS.IPv4HdrWriter.ttl ttlv
  | macOS, .protocol protocolv => MacOS.IPv4HdrWriter.protocol protocolv
  | macOS, .hdrChecksum hcsv => MacOS.IPv4HdrWriter.hdrChecksum hcsv
  | macOS, .saddr saddrv => MacOS.IPv4HdrWriter.saddr saddrv
  | macOS, .daddr daddrv => MacOS.IPv4HdrWriter.daddr daddrv

/-- The buffer after the constructor and the calls. -/
def written (P : Platform) (calls : List HdrSetter) (bs : List Byte) : List Byte :=
  (P.construct ++ calls.map P.call).foldl Assign.run bs

end Platform

/-- The writer of the PIM packets makes such calls. -/
theorem IPv4HdrWriter.write_calls (pw : PacketWriter) (sz : ℕ) (source : IPv4Address) :
    IPv4HdrWriter.write pw sz source = next pw HdrSize (Platform.linux.construct ++
      [HdrSetter.tos 192, .totalLen (htons (BitVec.ofNat 16 sz)), .id 0,
        .flagsAndFragOff (htons IP_DF), .ttl 1, .protocol IPPROTO_PIM, .saddr source.to_nl, .daddr Params.AllPIMRouters.to_nl].map
          Platform.linux.call) := rfl

/-! ### Fields -/

inductive HdrField where
  | version
  | ihl
  | tos
  | totalLen
  | id
  | flagsAndFragOff
  | ttl
  | protocol
  | hdrChecksum
  | saddr
  | daddr
  deriving DecidableEq, Repr

namespace HdrField

/-- The bits of the field, which are the same in both structures. -/
def span : HdrField → Span
  | ihl => ⟨0, 4⟩
  | version => ⟨4, 4⟩
  | tos => ⟨8, 8⟩
  | totalLen => ⟨16, 16⟩
  | id => ⟨32, 16⟩
  | flagsAndFragOff => ⟨48, 16⟩
  | ttl => ⟨64, 8⟩
  | protocol => ⟨72, 8⟩
  | hdrChecksum => ⟨80, 16⟩
  | saddr => ⟨96, 32⟩
  | daddr => ⟨128, 32⟩

end HdrField

def hdrLayout : Layout HdrField where
  span := HdrField.span
  apart := by
    intro f g hne
    cases f <;> cases g <;> first
      | exact absurd rfl hne
      | decide

def Platform.view (P : Platform) (f : HdrField) : ReadM ℕ :=
  match P, f with
  | linux, .version => BitVec.toNat <$> IPv4HdrView.version 0
  | linux, .ihl => BitVec.toNat <$> IPv4HdrView.ihl 0
  | linux, .tos => BitVec.toNat <$> IPv4HdrView.tos 0
  | linux, .totalLen => BitVec.toNat <$> IPv4HdrView.totalLen 0
  | linux, .id => BitVec.toNat <$> IPv4HdrView.id 0
  | linux, .flagsAndFragOff => BitVec.toNat <$> IPv4HdrView.flagsAndFragOff 0
  | linux, .ttl => BitVec.toNat <$> IPv4HdrView.ttl 0
  | linux, .protocol => BitVec.toNat <$> IPv4HdrView.protocol 0
  | linux, .hdrChecksum => BitVec.toNat <$> IPv4HdrView.hdrChecksum 0
  | linux, .saddr => BitVec.toNat <$> IPv4HdrView.saddr 0
  | linux, .daddr => BitVec.toNat <$> IPv4HdrView.daddr 0
  | macOS, .version => BitVec.toNat <$> MacOS.IPv4HdrView.version 0
  | macOS, .ihl => BitVec.toNat <$> MacOS.IPv4HdrView.ihl 0
  | macOS, .tos => BitVec.toNat <$> MacOS.IPv4HdrView.tos 0
  | macOS, .totalLen => BitVec.toNat <$> MacOS.IPv4HdrView.totalLen 0
  | macOS, .id => BitVec.toNat <$> MacOS.IPv4HdrView.id 0
  | macOS, .flagsAndFragOff => BitVec.toNat <$> MacOS.IPv4HdrView.flagsAndFragOff 0
  | macOS, .ttl => BitVec.toNat <$> MacOS.IPv4HdrView.ttl 0
  | macOS, .protocol => BitVec.toNat <$> MacOS.IPv4HdrView.protocol 0
  | macOS, .hdrChecksum => BitVec.toNat <$> MacOS.IPv4HdrView.hdrChecksum 0
  | macOS, .saddr => BitVec.toNat <$> MacOS.IPv4HdrView.saddr 0
  | macOS, .daddr => BitVec.toNat <$> MacOS.IPv4HdrView.daddr 0

namespace HdrSetter

/-- The field that the setter is for, and the value. -/
def sets : HdrSetter → HdrField × ℕ
  | ihl v => (.ihl, v.toNat)
  | tos v => (.tos, v.toNat)
  | totalLen v => (.totalLen, v.toNat)
  | id v => (.id, v.toNat)
  | flagsAndFragOff v => (.flagsAndFragOff, v.toNat)
  | ttl v => (.ttl, v.toNat)
  | protocol v => (.protocol, v.toNat)
  | hdrChecksum v => (.hdrChecksum, v.toNat)
  | saddr v => (.saddr, v.toNat)
  | daddr v => (.daddr, v.toNat)

/-- The field that the setter changes. -/
def target : Platform → HdrSetter → HdrField
  | .macOS, ihl _ => .version
  | _, s => s.sets.1

end HdrSetter

theorem view_run (P : Platform) (f : HdrField) {bs : List Byte} (hbs : bs.length = 20) :
    (P.view f).run bs = .ok (f.span.value bs) := by
  have h8 (off : ℕ) (h : off < 20) : (Span.mk (8 * off) 8).Reads (u8At off) bs :=
    u8At_reads (by omega)
  have h16 (off : ℕ) (h : off < 19) : (Span.mk (8 * off) 16).Reads (u16At off) bs :=
    u16At_reads (by omega)
  have h32 (off : ℕ) (h : off < 17) : (Span.mk (8 * off) 32).Reads (u32At off) bs :=
    u32At_reads (by omega)
  have hihl : (Span.mk 0 4).Reads (Iphdr.ihl.readAt 0) bs :=
    BitField.reads (hbs ▸ by decide) (by decide)
  have hversion : (Span.mk 4 4).Reads (Iphdr.version.readAt 0) bs :=
    BitField.reads (hbs ▸ by decide) (by decide)
  cases P <;> cases f
  case linux.version | macOS.version => exact hversion.run_toNat
  case linux.ihl | macOS.ihl => exact hihl.run_toNat
  case linux.tos | macOS.tos => exact (h8 1 (by decide)).run_toNat
  case linux.totalLen | macOS.totalLen => exact (h16 2 (by decide)).run_toNat
  case linux.id | macOS.id => exact (h16 4 (by decide)).run_toNat
  case linux.flagsAndFragOff | macOS.flagsAndFragOff => exact (h16 6 (by decide)).run_toNat
  case linux.ttl | macOS.ttl => exact (h8 8 (by decide)).run_toNat
  case linux.protocol | macOS.protocol => exact (h8 9 (by decide)).run_toNat
  case linux.hdrChecksum | macOS.hdrChecksum => exact (h16 10 (by decide)).run_toNat
  case linux.saddr | macOS.saddr => exact (h32 12 (by decide)).run_toNat
  case linux.daddr | macOS.daddr => exact (h32 16 (by decide)).run_toNat

/-! ### Runs of setters -/

theorem call_writes (P : Platform) (s : HdrSetter) :
    hdrLayout.Writes 20 (s.target P, P.call s) := by
  have hbits (lo : ℕ) (v : Byte) (h : lo + 4 ≤ 8) : (Assign.bits 0 lo 4 v).Fits 20 :=
    ⟨by decide, h⟩
  have h8 (off : ℕ) (v : Byte) (h : off + 1 ≤ 20) : (Assign.u8 off v).Fits 20 := h
  have h16 (off : ℕ) (v : BitVec 16) (h : off + 2 ≤ 20) : (Assign.u16 off v).Fits 20 := h
  have h32 (off : ℕ) (v : BitVec 32) (h : off + 4 ≤ 20) : (Assign.u32 off v).Fits 20 := h
  cases P <;> cases s
  case linux.ihl v => exact ⟨rfl, hbits 0 _ (by decide)⟩
  case macOS.ihl v => exact ⟨rfl, hbits 4 _ (by decide)⟩
  case linux.tos v | macOS.tos v => exact ⟨rfl, h8 1 v (by decide)⟩
  case linux.totalLen v | macOS.totalLen v => exact ⟨rfl, h16 2 v (by decide)⟩
  case linux.id v | macOS.id v => exact ⟨rfl, h16 4 v (by decide)⟩
  case linux.flagsAndFragOff v | macOS.flagsAndFragOff v => exact ⟨rfl, h16 6 v (by decide)⟩
  case linux.ttl v | macOS.ttl v => exact ⟨rfl, h8 8 v (by decide)⟩
  case linux.protocol v | macOS.protocol v => exact ⟨rfl, h8 9 v (by decide)⟩
  case linux.hdrChecksum v | macOS.hdrChecksum v => exact ⟨rfl, h16 10 v (by decide)⟩
  case linux.saddr v | macOS.saddr v => exact ⟨rfl, h32 12 v (by decide)⟩
  case linux.daddr v | macOS.daddr v => exact ⟨rfl, h32 16 v (by decide)⟩

def constructs (P : Platform) : List (HdrField × Assign) := [.version, .ihl].zip P.construct

theorem construct_writes (P : Platform) : ∀ w ∈ constructs P, hdrLayout.Writes 20 w := by
  intro w hw
  cases P <;>
  · rcases List.mem_pair.mp hw with rfl | rfl
    · exact ⟨rfl, by decide, by decide⟩
    · exact ⟨rfl, by decide, by decide⟩

/-- The assignments of the constructor and of the calls, each with its field. -/
def writes (P : Platform) (calls : List HdrSetter) : List (HdrField × Assign) :=
  constructs P ++ calls.map fun s => (s.target P, P.call s)

theorem writes_layout (P : Platform) (calls : List HdrSetter) :
    ∀ w ∈ writes P calls, hdrLayout.Writes 20 w := by
  intro w hw
  rcases List.mem_append.mp hw with hw | hw
  · exact construct_writes P w hw
  · obtain ⟨s, -, rfl⟩ := List.mem_map.mp hw
    exact call_writes P s

theorem writes_assigns (P : Platform) (calls : List HdrSetter) :
    (writes P calls).map Prod.snd = P.construct ++ calls.map P.call := by
  rw [writes, List.map_append, List.map_map]
  cases P <;> rfl

theorem length_written (P : Platform) (calls : List HdrSetter) {bs : List Byte}
    (hbs : bs.length = 20) : (P.written calls bs).length = 20 := by
  have hlen := Layout.length_run (writes_layout P calls) hbs
  rwa [writes_assigns] at hlen

namespace HdrField

/-- The value that the constructor gives the field. -/
def constructed : HdrField → Option ℕ
  | version => some 4
  | ihl => some 5
  | _ => none

theorem lastWrite_constructs (P : Platform) (f : HdrField) :
    lastWrite f ((constructs P).map fun w => (w.1, w.2.value)) = f.constructed := by
  cases P <;> cases f <;> rfl

theorem constructed_lt {f : HdrField} {v : ℕ} (h : f.constructed = some v) :
    v % 2 ^ f.span.width = v := by
  cases f <;> simp only [constructed, Option.some.injEq, reduceCtorEq] at h <;> subst h <;> rfl

end HdrField

/-- The field that the setter changes, and the value assigned to it. -/
def HdrSetter.assigns (P : Platform) (s : HdrSetter) : HdrField × ℕ :=
  (s.target P, (P.call s).value)

theorem written_value (P : Platform) (calls : List HdrSetter) {bs : List Byte}
    (hbs : bs.length = 20) (f : HdrField) :
    f.span.value (P.written calls bs) =
      ((lastWrite f (calls.map (HdrSetter.assigns P))).map (· % 2 ^ f.span.width)).getD
        (f.constructed.getD (f.span.value bs)) := by
  have hrun := Layout.value_run (writes_layout P calls) hbs f
  rw [writes_assigns, writes, List.map_append, lastWrite_append, List.map_map,
    HdrField.lastWrite_constructs] at hrun
  refine hrun.trans ?_
  show (((lastWrite f (calls.map (HdrSetter.assigns P))).or f.constructed).map _).getD _ = _
  cases lastWrite f (calls.map (HdrSetter.assigns P)) with
  | some v => rfl
  | none =>
    cases hconstructed : f.constructed with
    | none => rfl
    | some v => exact HdrField.constructed_lt hconstructed

/-! ### Writer and view -/

def lastSet (f : HdrField) (calls : List HdrSetter) : Option ℕ :=
  lastWrite f (calls.map HdrSetter.sets)

/-- The last value set for the field, cut to its width; a field that is not set has the value of
the constructor, or its previous one. -/
def HdrField.expected (f : HdrField) (calls : List HdrSetter) (prev : ℕ) : ℕ :=
  ((lastSet f calls).map (· % 2 ^ f.span.width)).getD (f.constructed.getD prev)

structure IsLens (P : Platform) (bs : List Byte) (calls : List HdrSetter) : Prop where
  last_set : ∀ f, ∃ prev, (P.view f).run bs = .ok prev ∧
    (P.view f).run (P.written calls bs) = .ok (f.expected calls prev)
  own_field : ∀ front s back, calls = front ++ s :: back → ∀ f, f ≠ s.sets.1 →
    (P.view f).run (P.written (front ++ [s]) bs) = (P.view f).run (P.written front bs)

theorem mask_toNat (v : Byte) : (0xf &&& v).toNat % 2 ^ 4 = v.toNat % 2 ^ 4 := by
  rw [BitVec.toNat_and, Nat.and_comm]
  exact (congrArg (· % 2 ^ 4) (Nat.and_two_pow_sub_one_eq_mod v.toNat 4)).trans (Nat.mod_mod _ _)

/-- A setter assigns the value that it is given to its own field, except for `ihl` on macOS. -/
theorem assigns_own {P : Platform} {s : HdrSetter} (h : P = .macOS → ∀ ihlv, s ≠ .ihl ihlv) :
    (s.assigns P).1 = s.sets.1 ∧
      (s.assigns P).2 % 2 ^ s.sets.1.span.width = s.sets.2 % 2 ^ s.sets.1.span.width := by
  cases P with
  | linux =>
    cases s with
    | ihl ihlv => exact ⟨rfl, mask_toNat ihlv⟩
    | _ => exact ⟨rfl, rfl⟩
  | macOS =>
    cases s with
    | ihl ihlv => exact absurd rfl (h rfl ihlv)
    | _ => exact ⟨rfl, rfl⟩

theorem view_written {P : Platform} {calls : List HdrSetter}
    (h : P = .macOS → ∀ ihlv, HdrSetter.ihl ihlv ∉ calls) {bs : List Byte} (hbs : bs.length = 20)
    (f : HdrField) :
    (P.view f).run (P.written calls bs) = .ok (f.expected calls (f.span.value bs)) := by
  have hlen := length_written P calls hbs
  have hlast : (lastWrite f (calls.map (HdrSetter.assigns P))).map (· % 2 ^ f.span.width) =
      (lastSet f calls).map (· % 2 ^ f.span.width) := by
    refine lastWrite_congr fun s hs => ?_
    obtain ⟨hfield, hvalue⟩ := assigns_own (P := P) (s := s) fun hP ihlv hs' =>
      h hP ihlv (hs' ▸ hs)
    refine ⟨by rw [hfield], fun hf => ?_⟩
    rw [hfield] at hf
    exact hf ▸ hvalue
  rw [view_run P f hlen, written_value P calls hbs, hlast, HdrField.expected]

/-! ### `ihl` on macOS -/

theorem macOS_ihl_unset (calls : List HdrSetter) :
    lastWrite HdrField.ihl (calls.map (HdrSetter.assigns .macOS)) = none := by
  refine lastWrite_eq_none fun w hw => ?_
  obtain ⟨s, -, rfl⟩ := List.mem_map.mp hw
  cases s <;> exact HdrField.noConfusion

theorem version_unset (calls : List HdrSetter) : lastSet .version calls = none := by
  refine lastWrite_eq_none fun w hw => ?_
  obtain ⟨s, -, rfl⟩ := List.mem_map.mp hw
  cases s <;> exact HdrField.noConfusion

theorem macOS_version_set (calls : List HdrSetter) :
    (lastWrite HdrField.version (calls.map (HdrSetter.assigns .macOS))).map
        (· % 2 ^ HdrField.version.span.width) = (lastSet .ihl calls).map (· % 2 ^ 4) := by
  refine lastWrite_congr fun s _ => ?_
  cases s with
  | ihl ihlv => exact ⟨iff_of_true rfl rfl, fun _ => mask_toNat ihlv⟩
  | _ => exact ⟨iff_of_false nofun nofun, nofun⟩

theorem no_ihl_front {front back : List HdrSetter} {P : Platform}
    (h : P = .macOS → ∀ ihlv, HdrSetter.ihl ihlv ∉ front ++ back) :
    P = .macOS → ∀ ihlv, HdrSetter.ihl ihlv ∉ front :=
  fun hP ihlv hmem => h hP ihlv (List.mem_append_left _ hmem)

/-- Writer and view agree on every field exactly when `ihl` is not called on macOS. -/
theorem hdrWriter_lens_exact (P : Platform) {bs : List Byte} (hbs : bs.length = 20)
    (calls : List HdrSetter) :
    IsLens P bs calls ↔ (P = .macOS → ∀ ihlv, HdrSetter.ihl ihlv ∉ calls) := by
  constructor
  · rintro hlens rfl ihlv hmem
    obtain ⟨v, hv⟩ : ∃ v, lastSet .ihl calls = some v :=
      Option.ne_none_iff_exists'.mp (lastWrite_ne_none (List.mem_map_of_mem hmem) rfl)
    have hlen := length_written .macOS calls hbs
    -- the last value set for `ihl` is read as `version`, and `ihl` is still the constructor's
    have hihl : v % 2 ^ 4 = 5 := by
      obtain ⟨prev, -, hview⟩ := hlens.last_set .ihl
      rw [view_run _ _ hlen, written_value _ _ hbs, macOS_ihl_unset, HdrField.expected, hv] at hview
      exact (Except.ok.inj hview).symm
    have hversion : v % 2 ^ 4 = 4 := by
      obtain ⟨prev, -, hview⟩ := hlens.last_set .version
      rw [view_run _ _ hlen, written_value _ _ hbs, macOS_version_set, HdrField.expected, hv,
        version_unset] at hview
      exact Except.ok.inj hview
    omega
  · intro h
    refine ⟨fun f => ⟨_, view_run P f hbs, view_written h hbs f⟩, ?_⟩
    rintro front s back rfl f hf
    have hsplit : front ++ s :: back = front ++ [s] ++ back := List.append_cons front s back
    rw [hsplit] at h
    have hsame : lastSet f (front ++ [s]) = lastSet f front := by
      rw [lastSet, List.map_append, List.map_singleton, lastWrite_concat, if_neg (Ne.symm hf),
        lastSet]
    rw [view_written (no_ihl_front h) hbs, view_written (no_ihl_front (no_ihl_front h)) hbs,
      HdrField.expected, HdrField.expected, hsame]

theorem hdrWriter_lens_exact_example :
    List.length (List.replicate 20 (0 : Byte)) = 20 ∧
      (IsLens .linux (List.replicate 20 0) [.ihl 6, .tos 192] ↔
        (Platform.linux = .macOS → ∀ ihlv, HdrSetter.ihl ihlv ∉ [HdrSetter.ihl 6, .tos 192])) :=
  ⟨rfl, hdrWriter_lens_exact .linux rfl [.ihl 6, .tos 192]⟩

/-- On macOS `ihl(6)` gives a header of version 6 and IHL 5. -/
theorem macOS_ihl_counterexample :
    Platform.macOS.written [.ihl 6] (List.replicate 20 0) = 0x65 :: List.replicate 19 0 ∧
      ¬ IsLens .macOS (List.replicate 20 0) [.ihl 6] := by
  refine ⟨by decide, fun hlens => ?_⟩
  obtain ⟨prev, -, hview⟩ := hlens.last_set .ihl
  have hihl : Except.ok 5 = Except.ok (HdrField.ihl.expected [.ihl 6] prev) := hview
  have hexpected : HdrField.ihl.expected [.ihl 6] prev = 6 := rfl
  exact absurd (Except.ok.inj hihl) (by rw [hexpected]; decide)

end Pimc
