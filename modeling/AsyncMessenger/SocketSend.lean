import AsyncMessenger.Realign

/-!
# Sending to the socket

`_try_send` puts what is to be sent behind what is left from before. It gathers as many segments as
the array of the messages has entries, hands them to `do_sendmsg`, and removes from the list what
has been sent. `do_sendmsg` calls `sendmsg` until all is sent or the socket is full, and after each
short write it moves the beginning of the array.

The lock is held throughout, and no segment is sent by zero copy. The kernel answers each call in
any of the ways that are no error; the loops have only so many rounds, since it may answer `EINTR`
again and again.

## Conservation

At each point the bytes the kernel has accepted and those that are left, in the array and in the
list, are the bytes that were to be sent (`drain_eq`, `doSendmsg_spec`, `round_spec`). For a whole
call that is `trySend_conserves`: nothing is lost or doubled, what is returned is the number of
bytes left, and the watcher is active exactly while there are some.

## Termination

Each round that is not interrupted leaves fewer bytes, or finds the socket full. If the kernel does
not answer `EINTR` for ever there is a number of rounds that is enough, and with more of them the
same is returned.
-/

namespace AsyncMessenger

open Buffer

/-- What `sendmsg` answers. -/
inductive SendAnswer
  /-- Bytes are taken: as many as there are, but at most `n + 1`. -/
  | took (n : ℕ)
  | eintr
  | eagain
  deriving DecidableEq, Repr

/-- The socket: how often it has been called, and what it has taken. -/
structure Socket where
  calls : ℕ := 0
  accepted : Bytes := []
  deriving DecidableEq, Repr

/-- How a call fails. -/
inductive SendError
  /-- The rounds are used up. -/
  | hang
  /-- An entry behind the array is used. -/
  | stray
  /-- `splice` fails. -/
  | splice (e : Halt)
  deriving DecidableEq, Repr

/-- What `_try_send` works on. -/
structure Outlet where
  heap : Heap
  outcomingBl : BufferList
  sd : ℤ
  /-- `ev_write.is_active()`. -/
  evWrite : Bool
  deriving DecidableEq, Repr

namespace Outlet

open BufferList

/-! ## `do_sendmsg` -/

/-- `r` bytes are removed from the beginning of the array. -/
def drain : List Bytes → ℕ → Option (List Bytes)
  | iov, 0 => some iov
  | [], _ + 1 => none
  | v :: iov, r + 1 =>
    if v.length ≤ r + 1 then drain iov (r + 1 - v.length) else some (v.drop (r + 1) :: iov)

/-- `do_sendmsg`: the array, and how many bytes it has. -/
def doSendmsg (kernel : ℕ → SendAnswer) : ℕ → List Bytes → ℕ → Socket → Except SendError (ℕ × Socket)
  | 0, _, _, _ => .error .hang
  | fuel + 1, iov, len, sock =>
    if len = 0 then .ok (0, sock)
    else
      match kernel sock.calls with
      | .eintr => doSendmsg kernel fuel iov len { sock with calls := sock.calls + 1 }
      | .eagain => .ok (len, { sock with calls := sock.calls + 1 })
      | .took n =>
        let r := min (n + 1) iov.flatten.length
        let sock := { calls := sock.calls + 1, accepted := sock.accepted ++ iov.flatten.take r }
        if sub32 len r = 0 then .ok (0, sock)
        else
          match drain iov r with
          | none => .error .stray
          | some iov => doSendmsg kernel fuel iov (sub32 len r) sock

/-! ## `_try_send` -/

section

variable (iovMax : ℕ)

/-- The loop that fills the array: its entries, and `msglen`. `none` is an entry too many. -/
def gather (h : Heap) : List Ptr → List Bytes → ℕ → Option (List Bytes × ℕ)
  | [], iov, msglen => some (iov, msglen)
  | pb :: pbs, iov, msglen =>
    if iovMax ≤ iov.length then none
    else if pbs = [] ∨ iov.length + 1 = iovMax then some (iov ++ [pb.bytes h], add32 msglen pb.len)
    else gather h pbs (iov ++ [pb.bytes h]) (add32 msglen pb.len)

/-- The list, after the bytes that have been sent have been trimmed. -/
def trim (bl : BufferList) (sent : ℕ) : Except SendError BufferList :=
  if sent = 0 then .ok bl
  else
    match bl.splice 0 sent none with
    | .ok x => .ok x.1
    | .error e => .error (.splice e)

/-- The loop over the list. -/
def sendLoop (kernel : ℕ → SendAnswer) (h : Heap) :
    ℕ → BufferList → Socket → Except SendError (BufferList × Socket)
  | 0, _, _ => .error .hang
  | fuel + 1, bl, sock =>
    if bl.buffers = [] then .ok (bl, sock)
    else
      match gather iovMax h bl.buffers [] 0 with
      | none => .error .stray
      | some (iov, msglen) =>
        match doSendmsg kernel fuel iov msglen sock with
        | .error e => .error e
        | .ok (r, sock) =>
          match trim bl (sub32 msglen r) with
          | .error e => .error e
          | .ok bl => if 0 < r then .ok (bl, sock) else sendLoop kernel h fuel bl sock

/-- `start_write`. -/
def startWrite (s : Outlet) : Outlet := if 0 ≤ s.sd then { s with evWrite := true } else s

/-- `set_action`. -/
def setAction (s : Outlet) : Outlet :=
  if s.outcomingBl.len ≠ 0 then s.startWrite
  else if s.evWrite then { s with evWrite := false }
  else s

/-- What is to be sent goes behind what is left. -/
def putBehind (alloc : Allocator) (s : Outlet) (sendBl : BufferList) : Outlet :=
  if sendBl.len = 0 then s
  else if s.outcomingBl.len ≠ 0 then
    let x := claimAppend alloc s.heap s.outcomingBl sendBl false
    { s with heap := x.1, outcomingBl := x.2.1 }
  else { s with outcomingBl := sendBl }

/-- `_try_send`: the connection, the socket, and what is returned. -/
def trySend (alloc : Allocator) (kernel : ℕ → SendAnswer) (fuel : ℕ) (s : Outlet) (sendBl : BufferList)
    (send : Bool) (sock : Socket) : Except SendError (Outlet × Socket × ℕ) :=
  let s := s.putBehind alloc sendBl
  if send then
    match sendLoop iovMax kernel s.heap fuel s.outcomingBl sock with
    | .error e => .error e
    | .ok (bl, sock) =>
      let s := setAction { s with outcomingBl := bl }
      .ok (s, sock, s.outcomingBl.len)
  else
    let s := s.setAction
    .ok (s, sock, s.outcomingBl.len)

end

/-! ## One call of `do_sendmsg`

A call either uses up its rounds or returns what it should; the lemmas are about the second case,
for any array. -/

/-- The rounds are used up, or the call returns what has the property. -/
def HangsOr {α : Type} (x : Except SendError α) (P : α → Prop) : Prop :=
  x = .error .hang ∨ ∃ a, x = .ok a ∧ P a

theorem HangsOr.mono {α : Type} {x : Except SendError α} {P Q : α → Prop} (h : HangsOr x P)
    (hPQ : ∀ a, P a → Q a) : HangsOr x Q :=
  h.imp_right fun ⟨a, hx, ha⟩ ↦ ⟨a, hx, hPQ a ha⟩

/-- Exactly so many bytes are drained. -/
theorem drain_eq {iov : List Bytes} {r : ℕ} (hle : r ≤ iov.flatten.length) :
    ∃ iov', drain iov r = some iov' ∧ iov'.flatten = iov.flatten.drop r := by
  induction iov generalizing r with
  | nil =>
    obtain rfl : r = 0 := Nat.le_zero.mp hle
    exact ⟨[], rfl, rfl⟩
  | cons v iov ih =>
    cases r with
    | zero => exact ⟨v :: iov, rfl, rfl⟩
    | succ r =>
      rw [List.flatten_cons, List.length_append] at hle
      rw [drain, List.flatten_cons]
      by_cases hwhole : v.length ≤ r + 1
      · obtain ⟨iov', hdrain, hflatten⟩ := ih (r := r + 1 - v.length) (by omega)
        refine ⟨iov', by rw [if_pos hwhole, hdrain], ?_⟩
        rw [hflatten, List.drop_append, List.drop_of_length_le hwhole, List.nil_append]
      · refine ⟨_, by rw [if_neg hwhole], ?_⟩
        rw [List.flatten_cons, List.drop_append_of_le_length (by omega)]

/-- What `do_sendmsg` has done when it returns `r`: all but `r` bytes have been taken. -/
def Took (bs : Bytes) (sock : Socket) (x : ℕ × Socket) : Prop :=
  x.1 ≤ bs.length ∧ x.2.accepted = sock.accepted ++ bs.take (bs.length - x.1)

/-- **`do_sendmsg`** sends from the front of the array. -/
theorem doSendmsg_spec (kernel : ℕ → SendAnswer) (fuel : ℕ) {iov : List Bytes} {len : ℕ}
    (hlen : iov.flatten.length = len) (hlt : len < 2 ^ 32) (sock : Socket) :
    HangsOr (doSendmsg kernel fuel iov len sock) (Took iov.flatten sock) := by
  induction fuel generalizing iov len sock with
  | zero => exact .inl rfl
  | succ fuel ih =>
    rw [doSendmsg]
    by_cases hzero : len = 0
    · rw [if_pos hzero]
      have hnil : iov.flatten = [] := List.length_eq_zero_iff.mp (hlen.trans hzero)
      exact .inr ⟨_, rfl, Nat.zero_le _, by rw [hnil, List.take_nil, List.append_nil]⟩
    rw [if_neg hzero]
    cases kernel sock.calls with
    | eintr => exact ih hlen hlt _
    | eagain =>
      refine .inr ⟨_, rfl, hlen.ge, ?_⟩
      dsimp only
      rw [hlen, Nat.sub_self, List.take_zero, List.append_nil]
    | took n =>
      dsimp only
      generalize hr : min (n + 1) iov.flatten.length = r
      have hle : r ≤ len := by omega
      rw [sub32_of_le hlt hle]
      by_cases hall : len - r = 0
      · rw [if_pos hall]
        have hwhole : iov.flatten.take r = iov.flatten := List.take_of_length_le (by omega)
        refine .inr ⟨_, rfl, Nat.zero_le _, ?_⟩
        dsimp only
        rw [hwhole, Nat.sub_zero, List.take_length]
      · rw [if_neg hall]
        obtain ⟨iov', hdrain, hflatten⟩ := drain_eq (hlen.symm ▸ hle)
        rw [hdrain]
        have hlen' : iov'.flatten.length = len - r := by rw [hflatten, List.length_drop, hlen]
        refine (ih hlen' (by omega) _).mono fun x hx ↦ ⟨by have := hx.1; omega, ?_⟩
        have htake : iov.flatten.take r ++ (iov.flatten.drop r).take (len - r - x.1) =
            iov.flatten.take (len - x.1) := by
          have hsum : len - x.1 = r + (len - r - x.1) := by
            have := hx.1
            omega
          rw [hsum, List.take_add]
        rw [hx.2, hlen', hflatten, List.append_assoc, htake, hlen]

/-! ## One round of `_try_send`

Gathering, sending and trimming are three steps on the same segments, and a round is their
composition. -/

variable {h : Heap} {bl : BufferList} {iovMax : ℕ}

/-- The array holds the first segments, one at least, and `msglen` is how long they are. -/
theorem gather_spec {pbs : List Ptr} (hps : ∀ p ∈ pbs, p.In h h.extent ∧ 0 < p.len) {iov : List Bytes}
    {msglen : ℕ} (hroom : iov.length < iovMax) (hmsglen : msglen = iov.flatten.length)
    (hlt : msglen + (pbs.map Ptr.len).sum < 2 ^ 32) :
    ∃ iov' k, gather iovMax h pbs iov msglen = some (iov', iov'.flatten.length) ∧
      iov'.flatten = iov.flatten ++ (pbs.flatMap (Ptr.bytes h)).take k ∧
      (pbs ≠ [] → 0 < k) ∧ k ≤ (pbs.flatMap (Ptr.bytes h)).length := by
  induction pbs generalizing iov msglen with
  | nil => exact ⟨iov, 0, by rw [gather, hmsglen], by simp, fun h ↦ absurd rfl h, Nat.zero_le _⟩
  | cons pb pbs ih =>
    obtain ⟨hin, hpos⟩ := hps pb List.mem_cons_self
    have hbytes : (pb.bytes h).length = pb.len := hin.length_bytes (tidy_extent h)
    rw [List.map_cons, List.sum_cons] at hlt
    have hadd : add32 msglen pb.len = (iov ++ [pb.bytes h]).flatten.length := by
      rw [add32_of_lt (by omega), List.flatten_append, List.flatten_singleton, List.length_append,
        hbytes, hmsglen]
    rw [gather, if_neg (by omega), List.flatMap_cons]
    by_cases hends : pbs = [] ∨ iov.length + 1 = iovMax
    · refine ⟨iov ++ [pb.bytes h], pb.len, by rw [if_pos hends, hadd], ?_, fun _ ↦ hpos, ?_⟩
      · rw [List.flatten_append, List.flatten_singleton, List.take_left' hbytes]
      · rw [List.length_append, hbytes]
        omega
    · have hroom' : (iov ++ [pb.bytes h]).length < iovMax := by
        rw [List.length_append, List.length_singleton]
        omega
      obtain ⟨iov', k, hgather, hflatten, -, hk⟩ := ih (fun p hp ↦ hps p (List.mem_cons_of_mem pb hp))
        hroom' hadd (by rw [add32_of_lt (by omega)]; omega)
      refine ⟨iov', pb.len + k, by rw [if_neg hends, hgather], ?_, fun _ ↦ by omega, ?_⟩
      · rw [hflatten, List.flatten_append, List.flatten_singleton, List.append_assoc, ← hbytes,
          List.take_length_add_append]
      · rw [List.length_append, hbytes]
        omega

/-- What has been sent is trimmed from the front. -/
theorem trim_spec (hbl : bl.Proper h) {sent : ℕ} (hle : sent ≤ bl.len) :
    ∃ bl', trim bl sent = .ok bl' ∧ bl'.Proper h ∧ bl'.contents h = (bl.contents h).drop sent := by
  rw [trim]
  by_cases hzero : sent = 0
  · exact ⟨bl, by rw [if_pos hzero], hbl, by rw [hzero, List.drop_zero]⟩
  · have hwithin : 0 + sent ≤ (bl.buffers.map Ptr.len).sum := by rw [← hbl.len]; omega
    obtain ⟨bl', d', hsplice, hsound, hcontents, -⟩ := splice_within hbl.sound (tidy_extent h) hbl.sum_lt
      (d := none) (by simp) hwithin
    rw [List.take_zero, List.nil_append, Nat.zero_add] at hcontents
    refine ⟨bl', by rw [if_neg hzero, hsplice], hsound.proper ?_, hcontents⟩
    rw [hcontents, List.length_drop, hbl.length_contents]
    exact Nat.lt_of_le_of_lt (Nat.sub_le _ _) hbl.lt

/-- One round takes some of the bytes, and leaves none of those in the array unless the socket is full. -/
def Sent (h : Heap) (bl : BufferList) (sock : Socket) (r : ℕ) (bl' : BufferList) (sock' : Socket) : Prop :=
  bl'.Proper h ∧ sock'.accepted ++ bl'.contents h = sock.accepted ++ bl.contents h ∧
    (r = 0 → (bl'.contents h).length < (bl.contents h).length)

/-- What has been gathered is sent and trimmed. -/
theorem round_spec (hmax : 0 < iovMax) (hbl : bl.Proper h) (hne : bl.buffers ≠ []) :
    ∃ iov msglen, gather iovMax h bl.buffers [] 0 = some (iov, msglen) ∧ iov.flatten.length = msglen ∧
      msglen < 2 ^ 32 ∧ ∀ r sock sock', Took iov.flatten sock (r, sock') →
        ∃ bl', trim bl (sub32 msglen r) = .ok bl' ∧ Sent h bl sock r bl' sock' := by
  have hlt : 0 + (bl.buffers.map Ptr.len).sum < 2 ^ 32 := by rw [Nat.zero_add]; exact hbl.sum_lt
  have hroom : ([] : List Bytes).length < iovMax := hmax
  obtain ⟨iov, k, hgather, hflatten, hpos, hk⟩ := gather_spec hbl.segment hroom rfl hlt
  rw [List.flatten_nil, List.nil_append] at hflatten
  have hlength : (bl.contents h).length = bl.len := hbl.length_contents
  have hcontents : bl.buffers.flatMap (Ptr.bytes h) = bl.contents h := rfl
  rw [hcontents] at hflatten hk
  have hiov : iov.flatten.length = k := by rw [hflatten, List.length_take, Nat.min_eq_left hk]
  have hkpos : 0 < k := hpos hne
  have hkle : k ≤ bl.len := hlength ▸ hk
  have hkmax : k < 2 ^ 32 := Nat.lt_of_le_of_lt hkle hbl.lt
  refine ⟨iov, _, hgather, rfl, hiov ▸ hkmax, fun r sock sock' htook ↦ ?_⟩
  obtain ⟨hr, haccepted⟩ := htook
  dsimp only at hr haccepted
  rw [hiov] at hr haccepted ⊢
  obtain ⟨bl', htrim, hproper, hcontents'⟩ := trim_spec hbl (show k - r ≤ bl.len by omega)
  refine ⟨bl', by rw [sub32_of_le hkmax hr, htrim], hproper, ?_, fun hzero ↦ ?_⟩
  · rw [haccepted, hcontents', hflatten, List.take_take, Nat.min_eq_left (Nat.sub_le _ _),
      List.append_assoc, List.take_append_drop]
  · rw [hcontents', List.length_drop]
    omega

/-- The loop neither loses nor doubles a byte. -/
theorem sendLoop_spec (hmax : 0 < iovMax) (kernel : ℕ → SendAnswer) (fuel : ℕ) (hbl : bl.Proper h)
    (sock : Socket) :
    HangsOr (sendLoop iovMax kernel h fuel bl sock) fun x ↦
      x.1.Proper h ∧ x.2.accepted ++ x.1.contents h = sock.accepted ++ bl.contents h := by
  induction fuel generalizing bl sock with
  | zero => exact .inl rfl
  | succ fuel ih =>
    rw [sendLoop]
    by_cases hnil : bl.buffers = []
    · rw [if_pos hnil]
      exact .inr ⟨_, rfl, hbl, rfl⟩
    rw [if_neg hnil]
    obtain ⟨iov, msglen, hgather, hlen, hlt, hround⟩ := round_spec hmax hbl hnil
    rw [hgather]
    dsimp only
    obtain hhang | ⟨⟨r, sock'⟩, hrun, htook⟩ := doSendmsg_spec kernel fuel hlen hlt sock
    · rw [hhang]
      exact .inl rfl
    obtain ⟨bl', htrim, hproper, hstream, -⟩ := hround r sock sock' htook
    rw [hrun]
    dsimp only
    rw [htrim]
    dsimp only
    by_cases hfull : 0 < r
    · rw [if_pos hfull]
      exact .inr ⟨_, rfl, hproper, hstream⟩
    · rw [if_neg hfull]
      exact (ih hproper sock').mono fun x hx ↦ ⟨hx.1, hx.2.trans hstream⟩

/-! ## The loops end

Two facts, for each loop: that more rounds change nothing, and that some number of rounds is enough. -/

/-- With more rounds the same is returned. -/
theorem doSendmsg_more {kernel : ℕ → SendAnswer} {fuel more : ℕ} {iov : List Bytes} {len : ℕ} {sock : Socket}
    {x : ℕ × Socket} (hrun : doSendmsg kernel fuel iov len sock = .ok x) (hle : fuel ≤ more) :
    doSendmsg kernel more iov len sock = .ok x := by
  induction fuel generalizing more iov len sock with
  | zero => exact absurd hrun (by rw [doSendmsg]; simp)
  | succ fuel ih =>
    obtain ⟨more, rfl⟩ : ∃ m, more = m + 1 := ⟨more - 1, by omega⟩
    have hle : fuel ≤ more := by omega
    rw [doSendmsg] at hrun ⊢
    by_cases hzero : len = 0
    · rw [if_pos hzero] at hrun ⊢
      exact hrun
    rw [if_neg hzero] at hrun ⊢
    cases hanswer : kernel sock.calls with
    | eintr =>
      rw [hanswer] at hrun
      exact ih hrun hle
    | eagain =>
      rw [hanswer] at hrun
      exact hrun
    | took n =>
      rw [hanswer] at hrun
      dsimp only at hrun ⊢
      generalize min (n + 1) iov.flatten.length = r at hrun ⊢
      by_cases hall : sub32 len r = 0
      · rw [if_pos hall] at hrun ⊢
        exact hrun
      rw [if_neg hall] at hrun ⊢
      cases hdrain : drain iov r with
      | none =>
        rw [hdrain] at hrun
        exact absurd hrun (by simp)
      | some iov' =>
        rw [hdrain] at hrun
        exact ih hrun hle

theorem sendLoop_more {kernel : ℕ → SendAnswer} {fuel more : ℕ} {sock : Socket} {x : BufferList × Socket}
    (hrun : sendLoop iovMax kernel h fuel bl sock = .ok x) (hle : fuel ≤ more) :
    sendLoop iovMax kernel h more bl sock = .ok x := by
  induction fuel generalizing more bl sock with
  | zero => exact absurd hrun (by rw [sendLoop]; simp)
  | succ fuel ih =>
    obtain ⟨more, rfl⟩ : ∃ m, more = m + 1 := ⟨more - 1, by omega⟩
    have hle : fuel ≤ more := by omega
    rw [sendLoop] at hrun ⊢
    by_cases hnil : bl.buffers = []
    · rw [if_pos hnil] at hrun ⊢
      exact hrun
    rw [if_neg hnil] at hrun ⊢
    cases hgather : gather iovMax h bl.buffers [] 0 with
    | none =>
      rw [hgather] at hrun
      exact absurd hrun (by simp)
    | some y =>
      rw [hgather] at hrun
      dsimp only at hrun ⊢
      cases hcall : doSendmsg kernel fuel y.1 y.2 sock with
      | error e =>
        rw [hcall] at hrun
        exact absurd hrun (by simp)
      | ok z =>
        rw [hcall] at hrun
        rw [doSendmsg_more hcall hle]
        dsimp only at hrun ⊢
        cases htrim : trim bl (sub32 y.2 z.1) with
        | error e =>
          rw [htrim] at hrun
          exact absurd hrun (by simp)
        | ok bl' =>
          rw [htrim] at hrun
          dsimp only at hrun ⊢
          by_cases hfull : 0 < z.1
          · rw [if_pos hfull] at hrun ⊢
            exact hrun
          · rw [if_neg hfull] at hrun ⊢
            exact ih hrun hle

/-- The kernel does not answer `EINTR` for ever. -/
def Answers (kernel : ℕ → SendAnswer) : Prop := ∀ n, ∃ m ≥ n, kernel m ≠ .eintr

theorem HangsOr.of_ok {α : Type} {a : α} {P : α → Prop} (h : HangsOr (.ok a) P) : P a := by
  obtain h | ⟨b, hb, hP⟩ := h
  · exact absurd h (by simp)
  · exact (Except.ok.inj hb) ▸ hP

/-- After a call that is not interrupted, less is left. -/
theorem doSendmsg_answered {kernel : ℕ → SendAnswer} {iov : List Bytes} {len : ℕ}
    (hlen : iov.flatten.length = len) (hlt : len < 2 ^ 32) {sock : Socket}
    (hanswer : kernel sock.calls ≠ .eintr)
    (hless : ∀ (iov' : List Bytes) (sock' : Socket), iov'.flatten.length < len →
      ∃ fuel x, doSendmsg kernel fuel iov' iov'.flatten.length sock' = .ok x) :
    ∃ fuel x, doSendmsg kernel fuel iov len sock = .ok x := by
  by_cases hzero : len = 0
  · exact ⟨1, (0, sock), by rw [doSendmsg, if_pos hzero]⟩
  cases hcall : kernel sock.calls with
  | eintr => exact absurd hcall hanswer
  | eagain => exact ⟨1, (len, { sock with calls := sock.calls + 1 }), by rw [doSendmsg, if_neg hzero, hcall]⟩
  | took n =>
    obtain ⟨r, hr⟩ : ∃ r, min (n + 1) iov.flatten.length = r := ⟨_, rfl⟩
    have hle : r ≤ len := by omega
    let sock' : Socket := ⟨sock.calls + 1, sock.accepted ++ iov.flatten.take r⟩
    by_cases hall : len - r = 0
    · refine ⟨1, (0, sock'), ?_⟩
      rw [doSendmsg, if_neg hzero, hcall]
      dsimp only
      rw [hr, sub32_of_le hlt hle, if_pos hall]
    · obtain ⟨iov', hdrain, hflatten⟩ := drain_eq (show r ≤ iov.flatten.length by omega)
      have hlen' : iov'.flatten.length = len - r := by rw [hflatten, List.length_drop, hlen]
      obtain ⟨fuel, x, hrun⟩ := hless iov' sock' (by omega)
      refine ⟨fuel + 1, x, ?_⟩
      rw [doSendmsg, if_neg hzero, hcall]
      dsimp only
      rw [hr, sub32_of_le hlt hle, if_neg hall, hdrain, ← hlen']
      exact hrun

theorem doSendmsg_ends {kernel : ℕ → SendAnswer} (hkernel : Answers kernel) {iov : List Bytes} {len : ℕ}
    (hlen : iov.flatten.length = len) (hlt : len < 2 ^ 32) (sock : Socket) :
    ∃ fuel x, doSendmsg kernel fuel iov len sock = .ok x := by
  induction len using Nat.strong_induction_on generalizing iov sock with
  | _ len ihLen =>
    have hless : ∀ (iov' : List Bytes) (sock' : Socket), iov'.flatten.length < len →
        ∃ fuel x, doSendmsg kernel fuel iov' iov'.flatten.length sock' = .ok x :=
      fun iov' sock' hless ↦ ihLen _ hless rfl (hless.trans hlt) sock'
    obtain ⟨m, hm, hanswer⟩ := hkernel sock.calls
    obtain ⟨d, rfl⟩ := Nat.exists_eq_add_of_le hm
    -- The inner induction is on the calls until one is not interrupted.
    induction d generalizing sock with
    | zero => exact doSendmsg_answered hlen hlt hanswer hless
    | succ d ih =>
      by_cases hnow : kernel sock.calls = .eintr
      · have hlater : kernel (sock.calls + 1 + d) ≠ .eintr := by
          rw [Nat.add_right_comm]
          exact hanswer
        obtain ⟨fuel, x, hrun⟩ := ih { sock with calls := sock.calls + 1 } (Nat.le_add_right _ _) hlater
        by_cases hzero : len = 0
        · exact ⟨1, (0, sock), by rw [doSendmsg, if_pos hzero]⟩
        · exact ⟨fuel + 1, x, by rw [doSendmsg, if_neg hzero, hnow]; exact hrun⟩
      · exact doSendmsg_answered hlen hlt hnow hless

theorem sendLoop_ends {kernel : ℕ → SendAnswer} (hkernel : Answers kernel) (hmax : 0 < iovMax)
    (hbl : bl.Proper h) (sock : Socket) : ∃ fuel x, sendLoop iovMax kernel h fuel bl sock = .ok x := by
  induction hsize : (bl.contents h).length using Nat.strong_induction_on generalizing bl sock with
  | _ size ih =>
    by_cases hnil : bl.buffers = []
    · exact ⟨1, _, by rw [sendLoop, if_pos hnil]⟩
    obtain ⟨iov, msglen, hgather, hlen, hlt, hround⟩ := round_spec hmax hbl hnil
    obtain ⟨fuel, ⟨r, sock'⟩, hcall⟩ := doSendmsg_ends hkernel hlen hlt sock
    have htook : Took iov.flatten sock (r, sock') := (hcall ▸ doSendmsg_spec kernel fuel hlen hlt sock).of_ok
    obtain ⟨bl', htrim, hproper, -, hless⟩ := hround r sock sock' htook
    by_cases hfull : 0 < r
    · refine ⟨fuel + 1, (bl', sock'), ?_⟩
      rw [sendLoop, if_neg hnil, hgather]
      dsimp only
      rw [hcall]
      dsimp only
      rw [htrim]
      exact if_pos hfull
    · obtain ⟨more, x, hrun⟩ := ih _ (hsize ▸ hless (by omega)) hproper sock' rfl
      refine ⟨max fuel more + 1, x, ?_⟩
      rw [sendLoop, if_neg hnil, hgather]
      dsimp only
      rw [doSendmsg_more hcall (le_max_left fuel more)]
      dsimp only
      rw [htrim]
      dsimp only
      rw [if_neg hfull]
      exact sendLoop_more hrun (le_max_right fuel more)

/-! ## The whole call

What the caller sees: the list before and after, the bytes the kernel has, and the watcher. -/

variable {alloc : Allocator} {s : Outlet} {sendBl : BufferList}

/-- `claim_append` puts the bytes of a proper list behind those of another one. -/
theorem claimAppend_proper (alloc : Allocator) {l o : BufferList} (hl : l.Proper h) (ho : o.Proper h)
    (hlt : l.len + o.len < 2 ^ 32) :
    (claimAppend alloc h l o false).2.1.Proper (claimAppend alloc h l o false).1 ∧
      (claimAppend alloc h l o false).2.1.contents (claimAppend alloc h l o false).1 =
        l.contents h ++ o.contents h := by
  obtain ⟨used, hg, hstands⟩ := makeShareable_spec alloc ho.segment (tidy_extent h)
  have hbytes : l.buffers.flatMap (Ptr.bytes (makeShareable alloc h o.buffers).1) = l.contents h := by
    rw [contents, List.flatMap, List.flatMap]
    exact congrArg List.flatten (List.map_congr_left fun p hp ↦ (hl.segment p hp).1.bytes_eq hg)
  refine ⟨⟨fun p hp ↦ ?_, ?_, Nat.mod_lt _ (Nat.two_pow_pos 32)⟩, ?_⟩
  · refine (List.mem_append.mp hp).elim (fun hp ↦ ?_) fun hp ↦ ?_
    · exact ⟨In.extent ((hl.segment p hp).1.grows hg) hg.tidy, (hl.segment p hp).2⟩
    · exact ⟨In.extent (hstands.segment p hp).1 hg.tidy, (hstands.segment p hp).2⟩
  · show add32 l.len o.len = ((l.buffers ++ (makeShareable alloc h o.buffers).2).map Ptr.len).sum
    rw [add32_of_lt hlt, List.map_append, List.sum_append, hstands.sum, hl.len, ho.len]
  · show (l.buffers ++ (makeShareable alloc h o.buffers).2).flatMap _ = _
    rw [List.flatMap_append]
    exact congrArg₂ (· ++ ·) hbytes hstands.bytes

theorem Proper.contents_of_empty {l : BufferList} (hl : l.Proper h) (hlen : l.len = 0) :
    l.contents h = [] :=
  List.length_eq_zero_iff.mp (hl.length_contents.trans hlen)

/-- What is to be sent stands behind what is left. -/
theorem putBehind_spec (alloc : Allocator) (hout : s.outcomingBl.Proper s.heap)
    (hsend : sendBl.Proper s.heap) (hlt : s.outcomingBl.len + sendBl.len < 2 ^ 31) :
    (s.putBehind alloc sendBl).outcomingBl.Proper (s.putBehind alloc sendBl).heap ∧
      (s.putBehind alloc sendBl).outcomingBl.contents (s.putBehind alloc sendBl).heap =
        s.outcomingBl.contents s.heap ++ sendBl.contents s.heap ∧
      (s.putBehind alloc sendBl).sd = s.sd := by
  rw [putBehind]
  by_cases hnone : sendBl.len = 0
  · rw [if_pos hnone]
    exact ⟨hout, by rw [Proper.contents_of_empty hsend hnone, List.append_nil], rfl⟩
  rw [if_neg hnone]
  by_cases hleft : s.outcomingBl.len ≠ 0
  · rw [if_pos hleft]
    obtain ⟨hproper, hcontents⟩ := claimAppend_proper alloc hout hsend (by omega)
    exact ⟨hproper, hcontents, rfl⟩
  · rw [if_neg hleft]
    have hempty : s.outcomingBl.contents s.heap = [] := Proper.contents_of_empty hout (of_not_not hleft)
    exact ⟨hsend, by rw [hempty]; rfl, rfl⟩

/-- The list stays, and the watcher is active while something is left. -/
theorem setAction_spec (s : Outlet) :
    s.setAction.heap = s.heap ∧ s.setAction.outcomingBl = s.outcomingBl ∧ s.setAction.sd = s.sd ∧
      (0 ≤ s.sd → (s.setAction.evWrite ↔ s.outcomingBl.len ≠ 0)) := by
  rw [setAction, startWrite]
  by_cases hleft : s.outcomingBl.len ≠ 0
  · rw [if_pos hleft]
    by_cases hsd : 0 ≤ s.sd
    · rw [if_pos hsd]
      exact ⟨rfl, rfl, rfl, fun _ ↦ iff_of_true rfl hleft⟩
    · rw [if_neg hsd]
      exact ⟨rfl, rfl, rfl, fun h ↦ absurd h hsd⟩
  · rw [if_neg hleft]
    cases hactive : s.evWrite with
    | true => exact ⟨rfl, rfl, rfl, fun _ ↦ iff_of_false (by simp) hleft⟩
    | false => exact ⟨rfl, rfl, rfl, fun _ ↦ iff_of_false (by simp [hactive]) hleft⟩

/-- What a call of `_try_send` leaves. -/
structure Conserved (s : Outlet) (sendBl : BufferList) (sock : Socket) (x : Outlet × Socket × ℕ) : Prop where
  stream : x.2.1.accepted ++ x.1.outcomingBl.contents x.1.heap =
    sock.accepted ++ (s.outcomingBl.contents s.heap ++ sendBl.contents s.heap)
  returned : x.2.2 = (x.1.outcomingBl.contents x.1.heap).length
  watched : 0 ≤ s.sd → (x.1.evWrite ↔ x.1.outcomingBl.contents x.1.heap ≠ [])

theorem Conserved.of_action (t : Outlet) {sock sock' : Socket} (hproper : t.outcomingBl.Proper t.heap)
    (hsd : t.sd = s.sd)
    (hstream : sock'.accepted ++ t.outcomingBl.contents t.heap =
      sock.accepted ++ (s.outcomingBl.contents s.heap ++ sendBl.contents s.heap)) :
    Conserved s sendBl sock (t.setAction, sock', t.setAction.outcomingBl.len) := by
  obtain ⟨hheap, hlist, -, hwatched⟩ := setAction_spec t
  have hlength := hproper.length_contents
  refine ⟨?_, ?_, fun hpos ↦ ?_⟩
  · rw [hheap, hlist]
    exact hstream
  · dsimp only
    rw [hheap, hlist]
    exact hlength.symm
  · dsimp only
    rw [hheap, hlist]
    refine (hwatched (hsd ▸ hpos)).trans ?_
    rw [← hlength, Ne, List.length_eq_zero_iff]

/-- **`_try_send`** conserves the stream. -/
theorem trySend_conserves (kernel : ℕ → SendAnswer) (alloc : Allocator) (hmax : 0 < iovMax)
    (hout : s.outcomingBl.Proper s.heap) (hsend : sendBl.Proper s.heap)
    (hlt : s.outcomingBl.len + sendBl.len < 2 ^ 31) (send : Bool) (sock : Socket) :
    (∀ fuel, HangsOr (trySend iovMax alloc kernel fuel s sendBl send sock) (Conserved s sendBl sock)) ∧
      (Answers kernel →
        ∃ fuel x, trySend iovMax alloc kernel fuel s sendBl send sock = .ok x) := by
  obtain ⟨hproper, hcontents, hsd⟩ := putBehind_spec alloc hout hsend hlt
  generalize hput : s.putBehind alloc sendBl = t at hproper hcontents hsd
  constructor
  · intro fuel
    rw [trySend, hput]
    dsimp only
    cases send with
    | false =>
      refine .inr ⟨_, rfl, ?_⟩
      exact .of_action t hproper hsd (congrArg (sock.accepted ++ ·) hcontents)
    | true =>
      rw [if_pos rfl]
      obtain hhang | ⟨⟨bl, sock'⟩, hrun, hbl, hstream⟩ := sendLoop_spec hmax kernel fuel hproper sock
      · rw [hhang]
        exact .inl rfl
      · rw [hrun]
        refine .inr ⟨_, rfl, ?_⟩
        exact .of_action { t with outcomingBl := bl } hbl hsd
          (hstream.trans (congrArg (sock.accepted ++ ·) hcontents))
  · intro hkernel
    cases send with
    | false => exact ⟨0, _, by rw [trySend, if_neg Bool.false_ne_true]⟩
    | true =>
      obtain ⟨fuel, ⟨bl, sock'⟩, hrun⟩ := sendLoop_ends hkernel hmax hproper sock
      refine ⟨fuel, ?_⟩
      rw [trySend, hput]
      dsimp only
      rw [if_pos rfl, hrun]
      exact ⟨_, rfl⟩

/-- One byte is taken, a call is interrupted, up to three bytes are taken, and the socket is full. -/
def shortWrites : ℕ → SendAnswer
  | 0 => .took 0
  | 1 => .eintr
  | 2 => .took 2
  | _ => .eagain

/-- Two segments stand before two more, and the array has one entry: the first segment goes out, in two
calls. -/
theorem trySend_shortWrites :
    let s : Outlet := ⟨BufferWorld.twoSegments.heap, BufferWorld.twoSegments.lists 1, 3, false⟩
    ∃ x, trySend 1 ⟨fun _ ↦ 0, fun _ _ ↦ 0⟩ shortWrites 5 s (BufferWorld.twoSegments.lists 1) true {} =
        .ok x ∧ Conserved s (BufferWorld.twoSegments.lists 1) {} x ∧ x.2.1.accepted = [1, 2] ∧
      x.1.outcomingBl.contents x.1.heap = [3, 4, 5, 1, 2, 3, 4, 5] ∧ x.2.2 = 8 ∧ x.1.evWrite = true := by
  have hconserved := (trySend_conserves
    (s := ⟨BufferWorld.twoSegments.heap, BufferWorld.twoSegments.lists 1, 3, false⟩)
    shortWrites ⟨fun _ ↦ 0, fun _ _ ↦ 0⟩ (show 0 < 1 by decide) (BufferWorld.proper_twoSegments 1)
    (BufferWorld.proper_twoSegments 1) (by decide) true {}).1 5
  exact ⟨_, rfl, hconserved.of_ok, rfl, rfl, rfl, rfl⟩

end Outlet

end AsyncMessenger
