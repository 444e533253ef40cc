import Dtest.Lib.Guarded
import Dtest.Lib.SortedMap
import Mathlib.Data.Int.Notation
import Mathlib.Data.List.Nodup
import Mathlib.Tactic.Common

/-!
# `_openConnections`

A listening `Socket` with the `Socket` objects of its connections, which `pollOrAcceptOrTimeout` and
`dispose` create and delete by way of a map from descriptors to pointers.  A pointer is null or
names an object; an operation that dereferences null or a deleted object has no result.  The
kernel's open descriptors are part of the state, so that a descriptor may come back after it has
been closed.  `connections_sound` is about all sequences of calls.
-/

namespace Dtest

/-- `POLLIN`. -/
def POLLIN : UInt16 := 0x1

/-- `POLLERR`. -/
def POLLERR : UInt16 := 0x8

/-- `POLLHUP`. -/
def POLLHUP : UInt16 := 0x10

/-- `POLLNVAL`. -/
def POLLNVAL : UInt16 := 0x20

/-- `POLLRDHUP`. -/
def POLLRDHUP : UInt16 := 0x2000

/-- The condition under which a connection that has nothing to read is closed. -/
def Gone (revents : UInt16) : Prop :=
  revents &&& POLLRDHUP ≠ 0 ∨ revents &&& POLLERR ≠ 0 ∨ revents &&& POLLHUP ≠ 0 ∨
    revents &&& POLLNVAL ≠ 0

instance (revents : UInt16) : Decidable (Gone revents) := inferInstanceAs (Decidable (_ ∨ _))

/-- Why a `Socket` was deleted: it was passed to `dispose`, or `poll` reported its descriptor. -/
inductive Cause where
  | disposed (sock : ℕ)
  | reported (fd : ℤ) (revents : UInt16)

/-- The deletion of a `Socket` with the descriptor it had. -/
structure Deletion where
  sock : ℕ
  fd : ℤ
  cause : Cause

/-- The `Socket` that is deleted is the one that there was a reason to delete. -/
def Deletion.Justified (d : Deletion) : Prop :=
  match d.cause with
  | .disposed sock => sock = d.sock
  | .reported fd revents => fd = d.fd ∧ revents &&& POLLIN = 0 ∧ Gone revents

/-- A listening socket.  `sockets` are the objects of its connections that exist, each with its
`_fd`, and `next` is the one that `new` makes next; `opened` are the open descriptors of the
process.  `returned` is the pointer that the last poll returned, until its object is disposed of,
and `deleted` what has been deleted so far. -/
structure ListeningSocket where
  fd : ℤ
  openConnections : SortedMap ℤ (Option ℕ) := .empty
  sockets : SortedMap ℕ ℤ := .empty
  next : ℕ := 0
  opened : List ℤ
  returned : Option ℕ := none
  deleted : List Deletion := []

/-- A call on the socket with what the kernel does in it, and the iteration order of the map; or
what other code of the process opens and closes between two calls. -/
inductive ListeningCall where
  | pollOrAcceptOrTimeout (order : List ℤ) (count : ℤ) (revents : ℕ → UInt16) (accepted : ℤ)
  | dispose
  | others (opened : List ℤ)

namespace ListeningSocket

/-- `_openConnections[k]`, which inserts a null pointer where there is no entry. -/
def lookup (s : ListeningSocket) (k : ℤ) : ListeningSocket × Option ℕ :=
  match s.openConnections.find? k with
  | some c => (s, c)
  | none => ({ s with openConnections := s.openConnections.set k none }, none)

/-- `c->_fd`. -/
def fdOf (s : ListeningSocket) (c : Option ℕ) : Option ℤ := c.bind s.sockets.find?

/-- `accept4` has returned a descriptor:
`_openConnections[incoming] = new Socket(incoming, addr)`. -/
def connect (s : ListeningSocket) (incoming : ℤ) : ListeningSocket :=
  { s with
    openConnections := s.openConnections.set incoming (some s.next)
    sockets := s.sockets.set s.next incoming
    next := s.next + 1
    opened := incoming :: s.opened }

/-- `auto c = _openConnections[fd]; c->close(); delete c; _openConnections.erase(fd)`. -/
def drop (s : ListeningSocket) (fd : ℤ) (cause : Cause) : Option ListeningSocket := do
  let (s, c) := s.lookup fd
  let sock ← c
  let sockFd ← s.sockets.find? sock
  return { s with
    openConnections := s.openConnections.erase fd
    sockets := s.sockets.erase sock
    opened := if sockFd ≠ -1 then s.opened.filter (· ≠ sockFd) else s.opened
    deleted := s.deleted ++ [⟨sock, sockFd, cause⟩] }

/-- The descriptors handed to `poll`: the listening one first. -/
def pollSocks (s : ListeningSocket) (order : List ℤ) : Option (List ℤ) := do
  let fds ← order.mapM fun k => (s.openConnections.find? k).bind s.fdOf
  return s.fd :: fds.filter (· ≠ -1)

/-- The loop over the results of `poll`. -/
def pollLoop (accepted : ℤ) :
    List (ℤ × UInt16) → ℤ → ListeningSocket → ℤ → Option (ListeningSocket × ℤ)
  | [], _, s, incoming => some (s, incoming)
  | (fd, revents) :: rest, count, s, incoming =>
    if count = 0 then some (s, incoming)
    else if revents = 0 then pollLoop accepted rest count s incoming
    else if fd = s.fd then
      if revents &&& POLLIN ≠ 0 then
        if accepted ≠ -1 then pollLoop accepted rest (count - 1) (s.connect accepted) accepted
        else pollLoop accepted rest (count - 1) s accepted
      else pollLoop accepted rest (count - 1) s incoming
    else if revents &&& POLLIN ≠ 0 then pollLoop accepted rest (count - 1) s fd
    else if Gone revents then do
      let s ← s.drop fd (.reported fd revents)
      pollLoop accepted rest (count - 1) s incoming
    else pollLoop accepted rest (count - 1) s incoming

/-- `Socket::pollOrAcceptOrTimeout`; `poll` returns `count` and sets `revents` by position. -/
def pollOrAcceptOrTimeout (s : ListeningSocket) (order : List ℤ) (count : ℤ) (revents : ℕ → UInt16)
    (accepted : ℤ) : Option (ListeningSocket × Option ℕ) := do
  let pollSocks ← s.pollSocks order
  let (s, incoming) ← pollLoop accepted (pollSocks.mapIdx fun i fd => (fd, revents i)) count s (-1)
  return if incoming = -1 then (s, none) else s.lookup incoming

/-- `Socket::dispose`. -/
def dispose (s : ListeningSocket) (sock : ℕ) : Option ListeningSocket := do
  let fd ← s.sockets.find? sock
  s.drop fd (.disposed sock)

def step (s : ListeningSocket) : ListeningCall → Option ListeningSocket
  | .pollOrAcceptOrTimeout order count revents accepted => do
    let (s, returned) ← s.pollOrAcceptOrTimeout order count revents accepted
    return { s with returned }
  | .dispose => do
    let s' ← s.dispose (← s.returned)
    return { s' with returned := none }
  | .others opened => some { s with opened }

/-- The map is iterated in some order; `accept4` returns a descriptor that is not open, or `-1`;
only what the last poll returned is disposed of, and once; nobody else closes these descriptors. -/
def Allowed (s : ListeningSocket) : ListeningCall → Prop
  | .pollOrAcceptOrTimeout order _ _ accepted =>
    s.openConnections.Iterates order ∧ (accepted = -1 ∨ 0 ≤ accepted ∧ accepted ∉ s.opened)
  | .dispose => s.returned.isSome
  | .others opened => s.fd ∈ opened ∧ ∀ e ∈ s.sockets.entries, e.2 ∈ opened

instance (s : ListeningSocket) : (call : ListeningCall) → Decidable (s.Allowed call)
  | .pollOrAcceptOrTimeout _ _ _ _ => inferInstanceAs (Decidable (_ ∧ (_ ∨ _ ∧ _)))
  | .dispose => inferInstanceAs (Decidable (_ = true))
  | .others _ => inferInstanceAs (Decidable (_ ∧ _))

/-- The calls on a listening socket; the state is `none` after a bad dereference. -/
def system : Guarded (Option ListeningSocket) ListeningCall where
  allowed s call := s.all fun s => decide (s.Allowed call)
  step s call := s.bind (step · call)

instance (s : Option ListeningSocket) (call : ListeningCall) : Decidable (system.allowed s call) :=
  inferInstanceAs (Decidable (_ = true))

/-- A socket that listens on an open descriptor and has no connections yet. -/
def start (fd : ℤ) (opened : List ℤ) : ListeningSocket := { fd, opened }

/-! ## The invariant -/

/-- The entries of the map and the objects name each other, by open descriptors; what has been
deleted is gone for good. -/
structure Inv (s : ListeningSocket) : Prop where
  keys : ∀ k c, s.openConnections.find? k = some c → ∃ sock, c = some sock ∧
    s.sockets.find? sock = some k
  live : ∀ sock fd, s.sockets.find? sock = some fd → s.openConnections.find? fd = some (some sock)
  listening : s.openConnections.find? s.fd = none
  opened : ∀ sock fd, s.sockets.find? sock = some fd → 0 ≤ fd ∧ fd ∈ s.opened
  fd_opened : 0 ≤ s.fd ∧ s.fd ∈ s.opened
  fresh : ∀ sock fd, s.sockets.find? sock = some fd → sock < s.next
  gone : ∀ d ∈ s.deleted, d.sock < s.next ∧ s.sockets.find? d.sock = none
  once : (s.deleted.map Deletion.sock).Nodup
  justified : ∀ d ∈ s.deleted, d.Justified

variable {s s' : ListeningSocket} {k fd accepted incoming : ℤ} {c : Option ℕ}

theorem inv_start (h : 0 ≤ fd) {opened : List ℤ} (ho : fd ∈ opened) : (start fd opened).Inv where
  keys := fun _ _ h => by cases h
  live := fun _ _ h => by cases h
  listening := rfl
  opened := fun _ _ h => by cases h
  fd_opened := ⟨h, ho⟩
  fresh := fun _ _ h => by cases h
  gone := fun _ h => absurd h List.not_mem_nil
  once := List.nodup_nil
  justified := fun _ h => absurd h List.not_mem_nil

/-- Every entry is an open descriptor other than the listening one. -/
theorem Inv.of_find? (h : s.Inv) (hk : s.openConnections.find? k = some c) :
    k ≠ s.fd ∧ 0 ≤ k ∧ k ∈ s.opened := by
  obtain ⟨sock, -, hsock⟩ := h.keys k c hk
  refine ⟨?_, h.opened sock k hsock⟩
  rintro rfl
  rw [h.listening] at hk
  cases hk

/-- A descriptor that is not open is no key. -/
theorem Inv.find?_eq_none (h : s.Inv) (hk : k ∉ s.opened) : s.openConnections.find? k = none := by
  cases hfind : s.openConnections.find? k with
  | none => rfl
  | some c => exact absurd (h.of_find? hfind).2.2 hk

theorem Inv.lookup (h : s.openConnections.find? k = some c) : s.lookup k = (s, c) := by
  unfold ListeningSocket.lookup
  rw [h]

/-- An object after a connection is the new one or one from before. -/
theorem Inv.of_find?_set (h : s.Inv) {sock : ℕ}
    (hsock : (s.sockets.set s.next accepted).find? sock = some k) :
    sock = s.next ∧ k = accepted ∨ sock < s.next ∧ s.sockets.find? sock = some k := by
  rw [SortedMap.find?_set] at hsock
  by_cases hn : sock = s.next
  · rw [if_pos hn] at hsock
    exact .inl ⟨hn, (Option.some.inj hsock).symm⟩
  · rw [if_neg hn] at hsock
    exact .inr ⟨h.fresh sock k hsock, hsock⟩

theorem Inv.connect (h : s.Inv) (h0 : 0 ≤ accepted) (hnew : accepted ∉ s.opened) :
    (s.connect accepted).Inv where
  keys k c hk := by
    replace hk : (s.openConnections.set accepted (some s.next)).find? k = some c := hk
    show ∃ sock, c = some sock ∧ (s.sockets.set s.next accepted).find? sock = some k
    by_cases hka : k = accepted
    · rw [hka, SortedMap.find?_set_self] at hk
      obtain rfl := Option.some.inj hk
      exact ⟨s.next, rfl, by rw [hka, SortedMap.find?_set_self]⟩
    · rw [SortedMap.find?_set_of_ne hka] at hk
      obtain ⟨sock, rfl, hsock⟩ := h.keys k c hk
      refine ⟨sock, rfl, ?_⟩
      rw [SortedMap.find?_set_of_ne (h.fresh sock k hsock).ne]
      exact hsock
  live sock k hsock := by
    show (s.openConnections.set accepted (some s.next)).find? k = some (some sock)
    rcases h.of_find?_set hsock with ⟨rfl, rfl⟩ | ⟨-, hold⟩
    · exact SortedMap.find?_set_self
    · have hk := h.live sock k hold
      rw [SortedMap.find?_set_of_ne, hk]
      rintro rfl
      rw [h.find?_eq_none hnew] at hk
      cases hk
  listening := by
    show (s.openConnections.set accepted (some s.next)).find? s.fd = none
    rw [SortedMap.find?_set_of_ne, h.listening]
    intro heq
    exact hnew (heq ▸ h.fd_opened.2)
  opened sock k hsock := by
    rcases h.of_find?_set hsock with ⟨-, rfl⟩ | ⟨-, hold⟩
    · exact ⟨h0, List.mem_cons_self⟩
    · exact ⟨(h.opened sock k hold).1, List.mem_cons_of_mem _ (h.opened sock k hold).2⟩
  fd_opened := ⟨h.fd_opened.1, List.mem_cons_of_mem _ h.fd_opened.2⟩
  fresh sock k hsock := by
    rcases h.of_find?_set hsock with ⟨rfl, -⟩ | ⟨hlt, -⟩
    exacts [Nat.lt_succ_self _, Nat.lt_succ_of_lt hlt]
  gone d hd := by
    obtain ⟨hlt, hnone⟩ := h.gone d hd
    refine ⟨Nat.lt_succ_of_lt hlt, ?_⟩
    show (s.sockets.set s.next accepted).find? d.sock = none
    rw [SortedMap.find?_set_of_ne hlt.ne, hnone]
  once := h.once
  justified := h.justified

/-- Where the object `sock` of the entry `fd` is deleted, every other object has another
descriptor. -/
theorem Inv.of_find?_erase (h : s.Inv) {sock sock' : ℕ}
    (hfd : s.openConnections.find? fd = some (some sock))
    (hk : (s.sockets.erase sock).find? sock' = some k) :
    s.sockets.find? sock' = some k ∧ k ≠ fd := by
  rw [SortedMap.find?_erase] at hk
  split at hk
  · cases hk
  · rename_i hne
    refine ⟨hk, ?_⟩
    rintro rfl
    have hlive := h.live sock' k hk
    rw [hfd] at hlive
    exact hne (Option.some.inj (Option.some.inj hlive)).symm

/-- The socket after the deletion of the object `sock` of the entry `fd`. -/
theorem Inv.erase (h : s.Inv) {sock : ℕ} (hfd : s.openConnections.find? fd = some (some sock))
    (hsock : s.sockets.find? sock = some fd) {cause : Cause}
    (hcause : Deletion.Justified ⟨sock, fd, cause⟩) :
    Inv { s with
      openConnections := s.openConnections.erase fd
      sockets := s.sockets.erase sock
      opened := s.opened.filter (· ≠ fd)
      deleted := s.deleted ++ [⟨sock, fd, cause⟩] } where
  keys k c hk := by
    rw [SortedMap.find?_erase] at hk
    split at hk
    · cases hk
    · rename_i hne
      obtain ⟨sock', rfl, hsock'⟩ := h.keys k c hk
      refine ⟨sock', rfl, ?_⟩
      rw [SortedMap.find?_erase_of_ne, hsock']
      rintro rfl
      rw [hsock] at hsock'
      exact hne (Option.some.inj hsock').symm
  live sock' k hk := by
    obtain ⟨hold, hne⟩ := h.of_find?_erase hfd hk
    rw [SortedMap.find?_erase_of_ne hne]
    exact h.live sock' k hold
  listening := by
    rw [SortedMap.find?_erase_of_ne (Ne.symm (h.of_find? hfd).1)]
    exact h.listening
  opened sock' k hk := by
    obtain ⟨hold, hne⟩ := h.of_find?_erase hfd hk
    obtain ⟨hk0, hmem⟩ := h.opened sock' k hold
    exact ⟨hk0, List.mem_filter.2 ⟨hmem, decide_eq_true hne⟩⟩
  fd_opened :=
    ⟨h.fd_opened.1, List.mem_filter.2 ⟨h.fd_opened.2, decide_eq_true (Ne.symm (h.of_find? hfd).1)⟩⟩
  fresh sock' k hk := h.fresh sock' k (h.of_find?_erase hfd hk).1
  gone d hd := by
    rcases List.mem_append.1 hd with hd | hd
    · obtain ⟨hlt, hnone⟩ := h.gone d hd
      refine ⟨hlt, ?_⟩
      rw [SortedMap.find?_erase, hnone, ite_self]
    · obtain rfl := List.mem_singleton.1 hd
      exact ⟨h.fresh sock fd hsock, SortedMap.find?_erase_self⟩
  once := by
    rw [List.map_append, List.nodup_append]
    refine ⟨h.once, List.nodup_singleton _, ?_⟩
    intro a ha b hb
    obtain ⟨d, hd, rfl⟩ := List.mem_map.1 ha
    obtain rfl := List.mem_singleton.1 hb
    rintro heq
    have hnone := (h.gone d hd).2
    rw [heq, hsock] at hnone
    cases hnone
  justified d hd := by
    rcases List.mem_append.1 hd with hd | hd
    · exact h.justified d hd
    · obtain rfl := List.mem_singleton.1 hd
      exact hcause

/-- Deleting the object of an entry, for a reason that is about this object. -/
theorem Inv.drop (h : s.Inv) (hfd : s.openConnections.find? fd = some c) {cause : Cause}
    (hcause : ∀ sock, c = some sock → Deletion.Justified ⟨sock, fd, cause⟩) :
    ∃ s', s.drop fd cause = some s' ∧ s'.Inv ∧ s'.fd = s.fd ∧
      s'.openConnections = s.openConnections.erase fd ∧ ∀ k ∈ s'.opened, k ∈ s.opened := by
  obtain ⟨sock, rfl, hsock⟩ := h.keys fd c hfd
  have h0 := (h.of_find? hfd).2.1
  have hm1 : fd ≠ -1 := by omega
  refine ⟨_, ?_, h.erase hfd hsock (hcause sock rfl), rfl, rfl,
    fun k hk => List.mem_of_mem_filter hk⟩
  unfold ListeningSocket.drop
  rw [Inv.lookup hfd]
  simp only [Option.bind_eq_bind, Option.bind_some, hsock, if_pos hm1]
  rfl

/-! ## One poll -/

theorem map_fst_mapIdx (fds : List ℤ) (revents : ℕ → UInt16) :
    (fds.mapIdx fun i fd => (fd, revents i)).map Prod.fst = fds := by
  induction fds generalizing revents with
  | nil => rfl
  | cons fd fds ih =>
    rw [List.mapIdx_cons, List.map_cons]
    congr 1
    exact ih fun i => revents (i + 1)

/-- Every entry is polled, under its key. -/
theorem Inv.pollSocks (h : s.Inv) {order : List ℤ} (horder : s.openConnections.Iterates order) :
    s.pollSocks order = some (s.fd :: order) := by
  have hfds : ∀ k ∈ order, (s.openConnections.find? k).bind s.fdOf = some k := by
    intro k hk
    obtain ⟨c, hc⟩ := SortedMap.mem_keys.1 (horder.mem_iff.1 hk)
    obtain ⟨sock, rfl, hsock⟩ := h.keys k c hc
    rw [hc]
    exact hsock
  have hmap : order.mapM (fun k => (s.openConnections.find? k).bind s.fdOf) = some order := by
    clear horder
    induction order with
    | nil => rfl
    | cons k order ih =>
      obtain ⟨hk, hrest⟩ := List.forall_mem_cons.1 hfds
      rw [List.mapM_cons, hk, ih hrest]
      rfl
  have hall : order.filter (· ≠ -1) = order := by
    apply List.filter_eq_self.2
    intro k hk
    obtain ⟨c, hc⟩ := SortedMap.mem_keys.1 (horder.mem_iff.1 hk)
    have := (h.of_find? hc).2.1
    exact decide_eq_true (by omega)
  unfold ListeningSocket.pollSocks
  simp only [hmap, Option.bind_eq_bind, Option.bind_some, hall]
  rfl

/-- What holds in the loop over the results: the descriptors still to come are the listening one, at
most once, and keys; what has been chosen is a key and will not come again. -/
structure LoopInv (accepted : ℤ) (rest : List ℤ) (s : ListeningSocket) (incoming : ℤ) : Prop where
  inv : s.Inv
  nodup : rest.Nodup
  keys : ∀ k ∈ rest, k = s.fd ∨ ∃ c, s.openConnections.find? k = some c
  chosen : incoming = -1 ∨ (∃ c, s.openConnections.find? incoming = some c) ∧ incoming ∉ rest
  accepted : s.fd ∈ rest → accepted = -1 ∨ 0 ≤ accepted ∧ accepted ∉ s.opened

theorem LoopInv.tail {rest : List ℤ} (h : LoopInv accepted (fd :: rest) s incoming) :
    LoopInv accepted rest s incoming where
  inv := h.inv
  nodup := (List.nodup_cons.1 h.nodup).2
  keys := fun k hk => h.keys k (List.mem_cons_of_mem _ hk)
  chosen := h.chosen.imp_right fun hc => ⟨hc.1, fun hm => hc.2 (List.mem_cons_of_mem _ hm)⟩
  accepted := fun hm => h.accepted (List.mem_cons_of_mem _ hm)

/-- The listening descriptor comes up and a connection is accepted. -/
theorem LoopInv.connect {rest : List ℤ} (h : LoopInv accepted (fd :: rest) s incoming)
    (hfd : fd = s.fd) (hacc : accepted ≠ -1) :
    LoopInv accepted rest (s.connect accepted) accepted := by
  subst hfd
  obtain ⟨h0, hnew⟩ := (h.accepted List.mem_cons_self).resolve_left hacc
  obtain ⟨hnot, hrest⟩ := List.nodup_cons.1 h.nodup
  have hkeys : ∀ k ∈ rest, ∃ c, s.openConnections.find? k = some c := by
    intro k hk
    refine (h.keys k (List.mem_cons_of_mem _ hk)).resolve_left ?_
    rintro rfl
    exact hnot hk
  refine ⟨h.inv.connect h0 hnew, hrest, fun k hk => .inr ?_, .inr ⟨?_, fun hm => ?_⟩,
    fun hm => absurd hm hnot⟩
  · obtain ⟨c, hc⟩ := hkeys k hk
    simp only [ListeningSocket.connect, SortedMap.find?_set]
    split
    · exact ⟨_, rfl⟩
    · exact ⟨c, hc⟩
  · exact ⟨_, SortedMap.find?_set_self⟩
  · obtain ⟨c, hc⟩ := hkeys accepted hm
    exact hnew (h.inv.of_find? hc).2.2

/-- A connection comes up that can be read. -/
theorem LoopInv.choose {rest : List ℤ} (h : LoopInv accepted (fd :: rest) s incoming)
    (hfd : fd ≠ s.fd) :
    LoopInv accepted rest s fd := by
  refine { h.tail with chosen := .inr ⟨?_, (List.nodup_cons.1 h.nodup).1⟩ }
  exact (h.keys fd List.mem_cons_self).resolve_left hfd

/-- A connection comes up that is gone. -/
theorem LoopInv.drop {rest : List ℤ} {revents : UInt16}
    (h : LoopInv accepted (fd :: rest) s incoming) (hfd : fd ≠ s.fd) (hin : revents &&& POLLIN = 0)
    (hgone : Gone revents) :
    ∃ s', s.drop fd (.reported fd revents) = some s' ∧ LoopInv accepted rest s' incoming := by
  obtain ⟨c, hc⟩ := (h.keys fd List.mem_cons_self).resolve_left hfd
  have hcause : ∀ sock, c = some sock → Deletion.Justified ⟨sock, fd, .reported fd revents⟩ :=
    fun _ _ => ⟨rfl, hin, hgone⟩
  obtain ⟨s', hdrop, hinv, hsame, herase, hopened⟩ := h.inv.drop hc hcause
  have hnot := (List.nodup_cons.1 h.nodup).1
  refine ⟨s', hdrop, hinv, h.tail.nodup, fun k hk => ?_, ?_, fun hm => ?_⟩
  · have hne : k ≠ fd := by
      rintro rfl
      exact hnot hk
    rw [hsame, herase, SortedMap.find?_erase_of_ne hne]
    exact h.tail.keys k hk
  · refine h.chosen.imp_right fun hchosen => ?_
    have hne : incoming ≠ fd := by
      rintro rfl
      exact hchosen.2 List.mem_cons_self
    rw [herase, SortedMap.find?_erase_of_ne hne]
    exact ⟨hchosen.1, fun hm => hchosen.2 (List.mem_cons_of_mem _ hm)⟩
  · rw [hsame] at hm
    exact (h.tail.accepted hm).imp_right fun hacc => ⟨hacc.1, fun ho => hacc.2 (hopened _ ho)⟩

/-- The loop never dereferences a bad pointer, and ends with a choice that is null or an entry. -/
theorem LoopInv.pollLoop (results : List (ℤ × UInt16)) (count : ℤ)
    (h : LoopInv accepted (results.map Prod.fst) s incoming) :
    ∃ s' incoming', pollLoop accepted results count s incoming = some (s', incoming') ∧ s'.Inv ∧
      (incoming' = -1 ∨ ∃ c, s'.openConnections.find? incoming' = some c) := by
  induction results generalizing s incoming count with
  | nil => exact ⟨s, incoming, rfl, h.inv, h.chosen.imp_right And.left⟩
  | cons result rest ih =>
    obtain ⟨fd, revents⟩ := result
    rw [List.map_cons] at h
    rw [ListeningSocket.pollLoop]
    split_ifs with hcount hnone hfd hin hacc hin hgone
    · exact ⟨s, incoming, rfl, h.inv, h.chosen.imp_right And.left⟩
    · exact ih count h.tail
    · exact ih _ (h.connect hfd hacc)
    · refine ih _ { h.tail with chosen := .inl ?_ }
      exact not_not.1 hacc
    · exact ih _ h.tail
    · exact ih _ (h.choose hfd)
    · obtain ⟨s', hdrop, h'⟩ := h.drop hfd (not_not.1 hin) hgone
      obtain ⟨s'', incoming', hloop, hrest⟩ := ih (count - 1) h'
      refine ⟨s'', incoming', ?_, hrest⟩
      rw [hdrop]
      exact hloop
    · exact ih _ h.tail

/-- A poll returns null or an object of the map, and inserts no null pointer. -/
theorem Inv.pollOrAcceptOrTimeout (h : s.Inv) {order : List ℤ}
    (horder : s.openConnections.Iterates order) (count : ℤ) (revents : ℕ → UInt16)
    (hacc : accepted = -1 ∨ 0 ≤ accepted ∧ accepted ∉ s.opened) :
    ∃ s' c, s.pollOrAcceptOrTimeout order count revents accepted = some (s', c) ∧ s'.Inv ∧
      ∀ sock, c = some sock → ∃ k, s'.openConnections.find? k = some (some sock) := by
  have hfst := map_fst_mapIdx (s.fd :: order) revents
  have hkey : ∀ k ∈ order, ∃ c, s.openConnections.find? k = some c := fun k hk =>
    SortedMap.mem_keys.1 (horder.mem_iff.1 hk)
  have hstart : LoopInv accepted (s.fd :: order) s (-1) := by
    refine ⟨h, List.nodup_cons.2 ⟨fun hm => ?_, horder.1⟩, fun k hk => ?_, .inl rfl, fun _ => hacc⟩
    · obtain ⟨c, hc⟩ := hkey s.fd hm
      exact (h.of_find? hc).1 rfl
    · exact (List.mem_cons.1 hk).imp_right (hkey k)
  rw [← hfst] at hstart
  obtain ⟨s', incoming, hloop, hinv, hchosen⟩ := hstart.pollLoop _ count
  unfold ListeningSocket.pollOrAcceptOrTimeout
  simp only [h.pollSocks horder, Option.bind_eq_bind, Option.bind_some, hloop]
  by_cases hnull : incoming = -1
  · rw [if_pos hnull]
    exact ⟨s', none, rfl, hinv, nofun⟩
  · obtain ⟨c, hc⟩ := hchosen.resolve_left hnull
    rw [if_neg hnull, Inv.lookup hc]
    exact ⟨s', c, rfl, hinv, fun sock hsock => ⟨incoming, by rw [hc, hsock]⟩⟩

/-! ## Whole runs -/

/-- What the map is, and what has been deleted. -/
structure Sound (s : ListeningSocket) : Prop where
  keys : ∀ k c, s.openConnections.find? k = some c → ∃ sock, c = some sock ∧
    s.sockets.find? sock = some k
  listening : s.openConnections.find? s.fd = none
  returned : ∀ sock, s.returned = some sock → ∃ k, s.openConnections.find? k = some (some sock)
  once : (s.deleted.map Deletion.sock).Nodup
  justified : ∀ d ∈ s.deleted, d.Justified

/-- The invariant with the pointer that the last poll returned. -/
structure RunInv (s : ListeningSocket) : Prop where
  inv : s.Inv
  returned : ∀ sock, s.returned = some sock → ∃ k, s.openConnections.find? k = some (some sock)

theorem RunInv.sound (h : s.RunInv) : s.Sound :=
  ⟨h.inv.keys, h.inv.listening, h.returned, h.inv.once, h.inv.justified⟩

theorem RunInv.step (h : s.RunInv) {call : ListeningCall} (hcall : s.Allowed call) :
    ∃ s', s.step call = some s' ∧ s'.RunInv := by
  cases call with
  | pollOrAcceptOrTimeout order count revents accepted =>
    obtain ⟨s', c, hpoll, hinv, hc⟩ := h.inv.pollOrAcceptOrTimeout hcall.1 count revents hcall.2
    refine ⟨{ s' with returned := c }, ?_, { hinv with }, hc⟩
    rw [ListeningSocket.step, hpoll]
    rfl
  | dispose =>
    obtain ⟨sock, hsock⟩ := Option.isSome_iff_exists.1 hcall
    obtain ⟨k, hk⟩ := h.returned sock hsock
    obtain ⟨sock', heq, hfd⟩ := h.inv.keys k _ hk
    obtain rfl := Option.some.inj heq
    have hcause : ∀ sock', some sock = some sock' → Deletion.Justified ⟨sock', k, .disposed sock⟩ :=
      fun _ h => Option.some.inj h
    obtain ⟨s', hdrop, hinv, -⟩ := h.inv.drop hk hcause
    refine ⟨{ s' with returned := none }, ?_, { hinv with }, nofun⟩
    rw [ListeningSocket.step, hsock]
    simp only [Option.bind_eq_bind, Option.bind_some, dispose, hfd, hdrop]
    rfl
  | others opened =>
    refine ⟨{ s with opened }, rfl,
      { h.inv with opened := fun sock fd hsock => ?_, fd_opened := ?_ }, h.returned⟩
    · exact ⟨(h.inv.opened sock fd hsock).1,
        hcall.2 (sock, fd) (SortedMap.find?_eq_some_iff.1 hsock)⟩
    · exact ⟨h.inv.fd_opened.1, hcall.1⟩

/-- In every sequence of polls and disposals, whatever `poll` and `accept4` answer: no bad pointer
is dereferenced; every entry of the map points to an object that has its key as descriptor, and the
listening descriptor is no key; a returned pointer is null or an object of the map; every object is
deleted at most once, and only when it was disposed of or `poll` had reported it gone with nothing
to read. -/
theorem connections_sound {fd : ℤ} {opened : List ℤ} (hfd : 0 ≤ fd) (hopened : fd ∈ opened)
    (calls : List ListeningCall) (h : system.Admissible (some (start fd opened)) calls) :
    ∃ s, system.exec (some (start fd opened)) calls = some s ∧ s.Sound := by
  have hinv := Guarded.Admissible.invariant (I := fun o => ∃ s, o = some s ∧ s.RunInv)
    (fun o call ho hcall => by
      obtain ⟨s, rfl, hs⟩ := ho
      exact hs.step (of_decide_eq_true hcall))
    ⟨start fd opened, rfl, inv_start hfd hopened, nofun⟩ h
  obtain ⟨s, hs, hrun⟩ := hinv
  exact ⟨s, hs, hrun.sound⟩

/-- Two connections are accepted, the first hangs up and its descriptor comes back, the second is
disposed of. -/
def sampleCalls : List ListeningCall :=
  [.pollOrAcceptOrTimeout [] 1 (fun _ => POLLIN) 4,
    .pollOrAcceptOrTimeout [4] 1 (fun i => if i = 0 then POLLIN else 0) 5,
    .pollOrAcceptOrTimeout [5, 4] 1 (fun i => if i = 2 then POLLHUP else 0) (-1),
    .pollOrAcceptOrTimeout [5] 2 (fun _ => POLLIN) 4,
    .dispose]

theorem connections_sound_sample :
    ∃ s, system.exec (some (start 3 [0, 1, 2, 3])) sampleCalls = some s ∧ s.Sound := by
  have hadm : system.Admissible (some (start 3 [0, 1, 2, 3])) sampleCalls := by
    decide +kernel
  exact connections_sound (by decide) (by decide) sampleCalls hadm

end ListeningSocket

end Dtest
