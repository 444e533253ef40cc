import Dtest.Lib.CString

/-!
# Parsing an address

`Socket::str_to_ipv4` of one string copies it into a local buffer that has room for a dotted address
and a port, splits it there at the first colon, and leaves the rest to the overload that resolves a
host and a port. `strToIpv4_of_le` says what becomes of a string that does not fit: the copy is not
terminated, and the search or the conversion to a string runs out of the buffer.
-/

namespace Dtest

open CString

/-- `INET_ADDRSTRLEN + 6`. -/
def hostSize : ℕ := 16 + 6

/-- `':'`. -/
def colon : UInt8 := 58

/-- The bytes of an ASCII text. -/
def ascii (text : String) : List UInt8 := text.toList.map fun c => UInt8.ofNat c.toNat

/-- What `str_to_ipv4` does with its string: it calls the overload for a host and a port, or throws
`std::invalid_argument`. -/
inductive Parsed where
  | resolve (host port : List UInt8)
  | invalidArgument (what : List UInt8)
  deriving DecidableEq

/-- `Socket::str_to_ipv4(str)`, undefined where it reads beyond the buffer `host`. -/
def strToIpv4 (str : List UInt8) : Option Parsed := do
  let host := strncpy hostSize (content str)
  match ← strchr colon host with
  | none =>
    return .invalidArgument (ascii "Error parsing address '" ++ (← read host) ++ ascii "'. ")
  | some i =>
    let host := host.set i 0
    return .resolve (← read host) (← read (host.drop (i + 1)))

/-! ## The three outcomes of the search -/

section Search

variable {str host : List UInt8} (hbuf : strncpy hostSize (content str) = host)
include hbuf

theorem strToIpv4_of_found {i : ℕ} (h : strchr colon host = some (some i)) :
    strToIpv4 str = (read (host.set i 0)).bind fun name =>
      (read ((host.set i 0).drop (i + 1))).map (.resolve name) := by
  unfold strToIpv4
  dsimp only
  rw [hbuf, h, Option.bind_eq_bind, Option.bind_some]
  dsimp only
  cases read (host.set i 0) with
  | none => rfl
  | some name => cases read ((host.set i 0).drop (i + 1)) <;> rfl

theorem strToIpv4_of_absent (h : strchr colon host = some none) :
    strToIpv4 str = (read host).map fun text =>
      .invalidArgument (ascii "Error parsing address '" ++ text ++ ascii "'. ") := by
  unfold strToIpv4
  dsimp only
  rw [hbuf, h, Option.bind_eq_bind, Option.bind_some]
  dsimp only
  cases read host <;> rfl

theorem strToIpv4_of_beyond (h : strchr colon host = none) : strToIpv4 str = none := by
  unfold strToIpv4
  dsimp only
  rw [hbuf, h]
  rfl

end Search

/-- Writing over the byte that follows a string, and what comes after it. -/
theorem set_append_cons (h l : List UInt8) (b c : UInt8) :
    (h ++ b :: l).set h.length c = h ++ c :: l ∧ (h ++ c :: l).drop (h.length + 1) = l := by
  constructor
  · rw [List.set_append_right _ _ (le_refl _), Nat.sub_self, List.set_cons_zero]
  · rw [List.drop_append, List.drop_of_length_le (Nat.le_succ _), Nat.add_sub_cancel_left]
    rfl

theorem content_split {h p : List UInt8} (hh : 0 ∉ h) (hp : 0 ∉ p) :
    content (h ++ colon :: p) = h ++ colon :: p := by
  apply content_eq
  intro hmem
  rcases List.mem_append.1 hmem with h1 | h1
  · exact hh h1
  · rcases List.mem_cons.1 h1 with h2 | h2
    · exact absurd h2 (by decide)
    · exact hp h2

section Split

variable {h p : List UInt8} (hh : 0 ∉ h) (hp : 0 ∉ p) (hc : colon ∉ h)
include hh hp hc

theorem strToIpv4_resolve (hlen : (h ++ colon :: p).length < hostSize) :
    strToIpv4 (h ++ colon :: p) = some (.resolve h p) := by
  obtain ⟨rest, hbuf⟩ := strncpy_of_lt hlen
  rw [List.append_assoc, List.cons_append] at hbuf
  obtain ⟨hset, hdrop⟩ := set_append_cons h (p ++ 0 :: rest) colon 0
  rw [← content_split hh hp] at hbuf
  rw [strToIpv4_of_found hbuf (strchr_found hh hc _), hset, hdrop, read_append hh, read_append hp]
  rfl

/-- The colon may be in the buffer, but the end of the port is not. -/
theorem strToIpv4_split_of_le (hlen : hostSize ≤ (h ++ colon :: p).length) :
    strToIpv4 (h ++ colon :: p) = none := by
  have hbuf := strncpy_of_le hlen
  rw [List.take_append, ← content_split hh hp] at hbuf
  rcases Nat.lt_or_ge h.length hostSize with hlt | hge
  · obtain ⟨k, hk⟩ := Nat.exists_eq_succ_of_ne_zero (by omega : hostSize - h.length ≠ 0)
    rw [List.take_of_length_le hlt.le, hk, List.take_succ_cons] at hbuf
    obtain ⟨hset, hdrop⟩ := set_append_cons h (p.take k) colon 0
    have hport : read (p.take k) = none := read_eq_none fun hmem => hp (List.mem_of_mem_take hmem)
    rw [strToIpv4_of_found hbuf (strchr_found hh hc _), hset, hdrop, read_append hh, hport]
    rfl
  · have h0 : 0 ∉ h.take hostSize := fun hmem => hh (List.mem_of_mem_take hmem)
    have h1 : colon ∉ h.take hostSize := fun hmem => hc (List.mem_of_mem_take hmem)
    rw [Nat.sub_eq_zero_of_le hge, List.take_zero, List.append_nil] at hbuf
    exact strToIpv4_of_beyond hbuf (strchr_eq_none h0 h1)

end Split

section NoColon

variable {str : List UInt8} (hc : colon ∉ str)
include hc

theorem colon_notMem_content : colon ∉ content str := fun hmem => hc (mem_of_mem_content hmem)

theorem strToIpv4_invalid (hlen : (content str).length < hostSize) :
    strToIpv4 str =
      some (.invalidArgument (ascii "Error parsing address '" ++ content str ++ ascii "'. ")) := by
  have h0 := nul_notMem_content str
  obtain ⟨rest, hbuf⟩ := strncpy_of_lt hlen
  rw [strToIpv4_of_absent hbuf (strchr_absent h0 (colon_notMem_content hc) (by decide) _),
    read_append h0]
  rfl

theorem strToIpv4_of_le (hlen : hostSize ≤ (content str).length) : strToIpv4 str = none := by
  have h0 : 0 ∉ (content str).take hostSize := fun hmem =>
    nul_notMem_content str (List.mem_of_mem_take hmem)
  have h1 : colon ∉ (content str).take hostSize := fun hmem =>
    colon_notMem_content hc (List.mem_of_mem_take hmem)
  exact strToIpv4_of_beyond (strncpy_of_le hlen) (strchr_eq_none h0 h1)

end NoColon

/-- What `str_to_ipv4` is for: an address is split at its first colon and a string without a colon
is refused, in both cases from a buffer that is written as a whole and not read beyond. -/
def SplitOrRefused (str : List UInt8) : Prop :=
  (strncpy hostSize (content str)).length = hostSize ∧
  (∀ h p, str = h ++ colon :: p → colon ∉ h → strToIpv4 str = some (.resolve h p)) ∧
  (colon ∉ str → ∃ what, strToIpv4 str = some (.invalidArgument what))

/-- This is so if and only if the string is shorter than the buffer; an address has no NUL. -/
theorem strToIpv4_iff {str : List UInt8} (hstr : colon ∈ str → 0 ∉ str) :
    SplitOrRefused str ↔ (content str).length < hostSize := by
  by_cases hc : colon ∈ str
  · obtain ⟨h, p, rfl, hh⟩ := List.eq_append_cons_of_mem hc
    have h0 := hstr hc
    have hh0 : 0 ∉ h := fun hm => h0 (List.mem_append_left _ hm)
    have hp0 : 0 ∉ p := fun hm => h0 (List.mem_append_right _ (List.mem_cons_of_mem _ hm))
    rw [content_split hh0 hp0]
    constructor
    · rintro ⟨-, hsplit, -⟩
      by_contra hlen
      have hparsed := hsplit h p rfl hh
      rw [strToIpv4_split_of_le hh0 hp0 hh (not_lt.1 hlen)] at hparsed
      cases hparsed
    · intro hlen
      refine ⟨length_strncpy _ _, fun h' p' heq hh' => ?_, fun hno => absurd hc hno⟩
      rw [heq] at h0 hlen ⊢
      exact strToIpv4_resolve (fun hm => h0 (List.mem_append_left _ hm))
        (fun hm => h0 (List.mem_append_right _ (List.mem_cons_of_mem _ hm))) hh' hlen
  · constructor
    · rintro ⟨-, -, hrefused⟩
      by_contra hlen
      obtain ⟨what, hparsed⟩ := hrefused hc
      rw [strToIpv4_of_le hc (not_lt.1 hlen)] at hparsed
      cases hparsed
    · intro hlen
      refine ⟨length_strncpy _ _, fun h p heq _ => ?_, fun _ => ⟨_, strToIpv4_invalid hc hlen⟩⟩
      rw [heq] at hc
      exact absurd (List.mem_append_right h List.mem_cons_self) hc

/-- The longest dotted address. -/
theorem strToIpv4_dotted : SplitOrRefused (ascii "255.255.255.255:65535") :=
  (strToIpv4_iff fun _ => by decide).2 (by decide)

/-- A host name instead of a dotted address. -/
theorem strToIpv4_hostName :
    0 ∉ ascii "node-12.cluster.local:20000" ∧
    ¬ SplitOrRefused (ascii "node-12.cluster.local:20000") := by
  refine ⟨by decide, fun h => ?_⟩
  have hsplit := h.2.1 (ascii "node-12.cluster.local") (ascii "20000") (by decide) (by decide)
  have hbeyond : strToIpv4 (ascii "node-12.cluster.local:20000") = none := by decide
  rw [hbeyond] at hsplit
  cases hsplit

end Dtest
