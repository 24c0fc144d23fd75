import Mathlib.Data.List.Infix
import Dabba.Pcap.Reading

/-!
# A file that packets are written to

A packet is written with two calls, its header and then its payload. Between them the file
ends in a header whose payload is missing. A reader that comes to a packet finds its header
and its payload wherever it is in the file, or nothing, and what it has found stays where
it is while the file grows.
-/

namespace Pcap

open Posix

/-- The packets of a file, and the header of one whose payload is still missing. -/
structure Log where
  records : List Record
  pending : Option PcapSfPkthdr

namespace Log

def bytes (l : Log) : List Byte :=
  recordsBytes l.records ++ (l.pending.map PcapSfPkthdr.bytes).getD []

/-- The two calls by which a packet is written. -/
inductive Grows : Log → Log → Prop
  | header (rs : List Record) (h : PcapSfPkthdr) : Grows ⟨rs, none⟩ ⟨rs, some h⟩
  | payload (rs : List Record) (r : Record) : Grows ⟨rs, some r.hdr⟩ ⟨rs ++ [r], none⟩

def offset (l : Log) (q : ℕ) : ℕ :=
  sizeofPcapFileHeader + (recordsBytes (l.records.take q)).length

/-- The header of packet `q`, whose payload may be missing. -/
def HeaderAt (l : Log) (q : ℕ) (h : PcapSfPkthdr) : Prop :=
  (∃ r, l.records[q]? = some r ∧ r.hdr = h) ∨ (q = l.records.length ∧ l.pending = some h)

variable {l l' : Log} {q : ℕ} {h : PcapSfPkthdr}

theorem bytes_none (rs : List Record) : bytes ⟨rs, none⟩ = recordsBytes rs :=
  List.append_nil _

theorem bytes_some (rs : List Record) (h : PcapSfPkthdr) :
    bytes ⟨rs, some h⟩ = recordsBytes rs ++ h.bytes := rfl

theorem HeaderAt.le_length (hat : l.HeaderAt q h) : q ≤ l.records.length := by
  rcases hat with ⟨r, hr, -⟩ | ⟨hq, -⟩
  · exact (List.getElem?_eq_some_iff.1 hr).1.le
  · exact hq.le

theorem Grows.records_grow (hgrows : l.Grows l') : l.records <+: l'.records := by
  cases hgrows with
  | header rs h => exact List.prefix_rfl
  | payload rs r => exact List.prefix_append rs [r]

theorem getElem?_of_prefix {rs rs' : List Record} {r : Record} (hgrown : rs <+: rs')
    (hr : rs[q]? = some r) : rs'[q]? = some r := by
  obtain ⟨post, rfl⟩ := hgrown
  rw [List.getElem?_append_left (List.getElem?_eq_some_iff.1 hr).1, hr]

theorem offset_of_prefix (hgrown : l.records <+: l'.records) (hq : q ≤ l.records.length) :
    l'.offset q = l.offset q := by
  obtain ⟨post, hpost⟩ := hgrown
  rw [offset, offset, ← hpost, List.take_append_of_le_length hq]

theorem Grows.headerAt (hgrows : l.Grows l') (hat : l.HeaderAt q h) : l'.HeaderAt q h := by
  rcases hat with ⟨r, hr, hhdr⟩ | ⟨hq, hpending⟩
  · exact .inl ⟨r, getElem?_of_prefix hgrows.records_grow hr, hhdr⟩
  · cases hgrows with
    | header rs h => cases hpending
    | payload rs r =>
        refine .inl ⟨r, ?_, Option.some.inj hpending⟩
        rw [hq]
        exact List.getElem?_concat_length

theorem offset_succ {r : Record} (hr : l.records[q]? = some r) :
    l.offset (q + 1) = l.offset q + (sizeofPcapSfPkthdr + r.payload.length) := by
  obtain ⟨hlt, rfl⟩ := List.getElem?_eq_some_iff.1 hr
  rw [offset, offset, List.take_succ_eq_append_getElem hlt, recordsBytes_append,
    List.length_append, recordsBytes_cons, recordsBytes_nil, List.append_nil,
    Record.length_bytes, Nat.add_assoc]

section Read

variable {hdr : PcapFileHeader}

theorem readAt_offset (hdr : PcapFileHeader) (l : Log) (q k n : ℕ) :
    readAt (hdr.bytes ++ l.bytes) (l.offset q + k) n =
      ((recordsBytes (l.records.drop q) ++ (l.pending.map PcapSfPkthdr.bytes).getD []).drop
        k).take n := by
  have hsplit : recordsBytes l.records =
      recordsBytes (l.records.take q) ++ recordsBytes (l.records.drop q) := by
    rw [← recordsBytes_append, List.take_append_drop]
  have hoff : l.offset q = (hdr.bytes ++ recordsBytes (l.records.take q)).length := by
    rw [List.length_append, hdr.length_bytes, offset]
  rw [readAt, bytes, hsplit, List.append_assoc, ← List.append_assoc, hoff, ← List.drop_drop,
    List.drop_left]

theorem drop_of_getElem? {r : Record} (hr : l.records[q]? = some r) :
    recordsBytes (l.records.drop q) = r.hdr.bytes ++ (r.payload ++
      recordsBytes (l.records.drop (q + 1))) := by
  obtain ⟨hlt, rfl⟩ := List.getElem?_eq_some_iff.1 hr
  rw [List.drop_eq_getElem_cons hlt, recordsBytes_cons, Record.bytes, List.append_assoc]

/-- At a packet a reader finds its header, or nothing when there is no packet yet. -/
theorem readAt_header (hq : q ≤ l.records.length) :
    (∃ h, l.HeaderAt q h ∧
      readAt (hdr.bytes ++ l.bytes) (l.offset q) sizeofPcapSfPkthdr = h.bytes) ∨
      readAt (hdr.bytes ++ l.bytes) (l.offset q) sizeofPcapSfPkthdr = [] := by
  have hread := readAt_offset hdr l q 0 sizeofPcapSfPkthdr
  rw [Nat.add_zero, List.drop_zero] at hread
  rw [hread]
  cases hr : l.records[q]? with
  | some r =>
      refine .inl ⟨r.hdr, .inl ⟨r, hr, rfl⟩, ?_⟩
      rw [drop_of_getElem? hr, List.append_assoc]
      exact List.take_left' r.hdr.length_bytes
  | none =>
      obtain rfl : q = l.records.length := le_antisymm hq (List.getElem?_eq_none_iff.1 hr)
      rw [List.drop_length, recordsBytes_nil, List.nil_append]
      cases hpending : l.pending with
      | none => exact .inr rfl
      | some h =>
          refine .inl ⟨h, .inr ⟨rfl, hpending⟩, ?_⟩
          exact List.take_of_length_le h.length_bytes.le

/-- Behind the header of a packet a reader finds its payload, or nothing when it is still
missing. -/
theorem readAt_payload (hat : l.HeaderAt q h) :
    (∃ r, l.records[q]? = some r ∧ readAt (hdr.bytes ++ l.bytes)
      (l.offset q + sizeofPcapSfPkthdr) h.caplen.toNat = r.payload) ∨
      readAt (hdr.bytes ++ l.bytes) (l.offset q + sizeofPcapSfPkthdr) h.caplen.toNat = [] := by
  rw [readAt_offset]
  rcases hat with ⟨r, hr, rfl⟩ | ⟨rfl, hpending⟩
  · refine .inl ⟨r, hr, ?_⟩
    rw [drop_of_getElem? hr, List.append_assoc, List.drop_left' r.hdr.length_bytes,
      List.append_assoc, ← r.complete, List.take_left]
  · refine .inr ?_
    rw [List.drop_length, recordsBytes_nil, List.nil_append, hpending]
    have hnone : h.bytes.drop sizeofPcapSfPkthdr = [] :=
      List.drop_of_length_le h.length_bytes.le
    exact (congrArg (List.take _) hnone).trans List.take_nil

end Read

end Log

end Pcap
