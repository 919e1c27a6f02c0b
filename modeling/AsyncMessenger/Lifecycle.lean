import AsyncMessenger.Binding
import AsyncMessenger.Lib.Run

/-!
# The life of a messenger

A messenger is bound, started, shut down and waited for, and may be bound again under another
address in between. Its `Processor` keeps the listening socket, and the nonce of the addresses that
the messenger goes by; a worker watches the socket while the messenger is ready.

A call may stop at an assertion, or never return; both are `none`.

## `bind`

`processorBind` calls the loops of a module of its own, which try one port after the other, and then
takes the address of the socket they have left. What it comes to is one of the cases of `Comes`: it
listens on a socket that is bound to the first candidate the kernel grants, or it has closed the
socket and returns an error. The two assertions that can stop it come after the socket has been
bound; when they do is said by `processorBind_eq_none_iff`.

## Runs

`Sound` is what holds in every run of calls, whatever the results of the system calls: no socket is
open but the one that listens, a worker watches nothing else, and the address the messenger goes by
carries the port and the nonce of its `Processor`. A rebind adds a million to the nonce, which comes
round to the same 32 bits only after `2 ^ 26` of them.
-/

namespace AsyncMessenger

/-- A messenger with its `Processor`. -/
structure Lifecycle where
  inst : MyInst := { addr := .blank }
  /-- `nonce` of the messenger; the nonce it was made with. -/
  baseNonce : ℕ := 0
  /-- `nonce` of the `Processor`, a `uint64_t`. -/
  nonce : ℕ := 0
  /-- `listen_sd`. -/
  listenSd : Option ℕ := none
  /-- `worker` is set: it watches the socket. -/
  worker : Bool := false
  started : Bool := false
  didBind : Bool := false
  shutdownCalled : Bool := false
  /-- The threads of the dispatch queue are there. -/
  dispatching : Bool := false
  /-- The sockets that `bind` has made and that have not been closed. -/
  sockets : List ℕ := []
  /-- History: how often `rebind` was called, -/
  rebinds : ℕ := 0
  /-- and the address of the messenger after each successful `bind`, with that number. -/
  announced : List (ℕ × EntityAddr) := []
  /-- History: the port of the listening socket, as `getsockname` has told it. -/
  port : ℕ := 0

namespace Lifecycle

variable (s : Lifecycle)

/-! ## `Processor` -/

/-- `close(listen_sd)`. -/
def closeListen : Lifecycle :=
  { s with listenSd := none, sockets := s.listenSd.elim s.sockets s.sockets.erase }

/-- The end of `Processor::bind`: the messenger takes its address, of a socket bound to
`listenAddr`. -/
def takeAddr (bindAddr listenAddr : EntityAddr) : Option Lifecycle :=
  let inst := { s.inst with addr := bindAddr }
  (if bindAddr ≠ .blank then inst.learnedAddr bindAddr else if inst.needAddr then some inst else none).map
    fun inst ↦
      let addr := if inst.addr.getPort = 0 then listenAddr else inst.addr
      let addr := { addr with nonce := s.nonce % 2 ^ 32 }
      { s with
        inst := { inst with addr }
        announced := s.announced ++ [(s.rebinds, addr)]
        port := listenAddr.getPort }

variable (conf : BindConf)

/-- `listen_addr`, as the loops get it. -/
def listenAddr (bindAddr : EntityAddr) : EntityAddr :=
  { bindAddr with
    family := if bindAddr.isIp then bindAddr.family else if conf.bindIpv6 then afInet6 else afInet }

/-- `Processor::bind`, with the value of `errno` before. -/
def processorBind (calls : BindCalls) (errno : ℕ) (bindAddr : EntityAddr) (avoid : List ℕ) :
    Option (ℤ × Lifecycle) :=
  match calls.socket with
  | .error e => some (-e, { s with listenSd := none })
  | .ok fd =>
    let s := { s with listenSd := some fd, sockets := fd :: s.sockets }
    match calls.setNonblock with
    | some e => some (-e, s.closeListen)
    | none =>
      let t := calls.attemptLoop conf avoid conf.retryCount 0 { addr := listenAddr conf bindAddr, errno }
      if t.bound then
        match calls.getsockname t.addr with
        | .error e => some (-e, s.closeListen)
        | .ok name => match calls.listen with
          | some e => some (-e, s.closeListen)
          | none =>
            (s.takeAddr bindAddr { t.addr with family := name.family, rest := name.rest }).map fun s ↦ (0, s)
      else some (t.r, s.closeListen)

/-- `Processor::rebind`. -/
def processorRebind (calls : BindCalls) (errno : ℕ) (avoid : List ℕ) : Option (ℤ × Lifecycle) :=
  (s.inst.addr.setPort 0).bind fun addr ↦
    let nonce := (s.nonce + 1000000) % 2 ^ 64
    let s' : Lifecycle := { s with
      nonce
      inst := { s.inst with addr := { s.inst.addr with nonce := nonce % 2 ^ 32 } }
      rebinds := s.rebinds + 1 }
    s'.processorBind conf calls errno addr (s.inst.addr.getPort :: avoid)

/-- `Processor::start`. -/
def processorStart : Lifecycle := if s.listenSd.any (0 < ·) then { s with worker := true } else s

/-- `Processor::stop`. -/
def processorStop : Lifecycle := if s.listenSd.isSome then { s.closeListen with worker := false } else s

/-! ## The messenger

The calls a messenger answers. A system call that a step makes has its result in the event. -/

/-- The calls. -/
inductive Event
  | bind (calls : BindCalls) (errno : ℕ) (bindAddr : EntityAddr)
  | rebind (calls : BindCalls) (errno : ℕ) (avoid : List ℕ)
  | unbind
  | start
  /-- The first dispatcher is added. -/
  | ready
  | shutdown
  | wait
  /-- A connection calls `learned_addr`. -/
  | learnedAddr (forMe : EntityAddr)
  | setAddrUnknowns (addr : EntityAddr)

/-- What a call returns, and the messenger after it. -/
def call : Event → Option (ℤ × Lifecycle)
  | .bind calls errno bindAddr =>
    if s.started then some (-1, s)
    else (s.processorBind conf calls errno bindAddr []).map fun r ↦
      (r.1, if 0 ≤ r.1 then { r.2 with didBind := true } else r.2)
  | .rebind calls errno avoid =>
    if s.didBind then
      (s.processorStop.processorRebind conf calls errno avoid).map fun r ↦
        (r.1, if r.1 = 0 then r.2.processorStart else r.2)
    else none
  | .unbind => some (0, if s.didBind then { s.processorStop with didBind := false } else s)
  | .start =>
    if s.started then some (-1, s)
    else
      let s := { s with started := true }
      some (0, if s.didBind then s
        else { s with inst := { s.inst with addr := { s.inst.addr with nonce := s.baseNonce % 2 ^ 32 } } })
  | .ready =>
    if s.dispatching then none
    else
      let s := { s with dispatching := true }
      some (0, if s.didBind then s.processorStart else s)
  | .shutdown =>
    if !s.started then some (-1, s)
    else if s.shutdownCalled then some (0, s)
    -- the thread of the local deliveries is joined
    else if s.dispatching then some (0, { s.processorStop with shutdownCalled := true, didBind := false })
    else none
  | .wait =>
    if !s.started then some (0, s)
    else if s.didBind then none
    -- the dispatch thread ends after `shutdown` only
    else if s.dispatching && !s.shutdownCalled then none
    else some (0, { s with dispatching := false, shutdownCalled := false, started := false })
  | .learnedAddr forMe => (s.inst.learnedAddr forMe).map fun inst ↦ (0, { s with inst })
  | .setAddrUnknowns addr =>
    if s.inst.addr.isBlankIp then
      (({ s.inst.addr with family := addr.family, rest := addr.rest } : EntityAddr).setPort
        s.inst.addr.getPort).map fun a ↦ (0, { s with inst := { s.inst with addr := a } })
    else some (0, s)

/-- One step. -/
def step (s : Lifecycle) (e : Event) : Option Lifecycle := (s.call conf e).map Prod.snd

/-! ## Addresses

Whatever is learned of an address, from a peer or from the configuration, its nonce and its port are
kept. -/

section Addresses

variable {a b : EntityAddr} {p : ℕ}

theorem getPort_lt (a : EntityAddr) : a.getPort < 2 ^ 16 := by
  rw [EntityAddr.getPort]
  split_ifs
  · refine lt_of_lt_of_le (LittleEndian.decode_lt _) ?_
    rw [List.length_reverse]
    exact Nat.pow_le_pow_right (by decide) (List.length_take_le 2 _)
  · decide

theorem isIp_of_getPort (h : a.getPort ≠ 0) : a.isIp = true := by
  by_contra hno
  rw [EntityAddr.getPort, if_neg hno] at h
  exact h rfl

theorem setPort_spec (h : a.setPort p = some b) :
    b.isIp = true ∧ b.getPort = p % 2 ^ 16 ∧ b.nonce = a.nonce ∧ a.withPort p = b := by
  have hip : a.isIp = true := by
    by_contra hno
    rw [EntityAddr.setPort, if_neg hno] at h
    cases h
  rw [EntityAddr.setPort_of_isIp hip, Option.some_inj] at h
  exact ⟨h ▸ hip, h ▸ EntityAddr.getPort_withPort hip, h ▸ rfl, h⟩

/-- Whatever a messenger learns, it keeps its nonce and its port. -/
theorem learnedAddr_spec {i i' : MyInst} {forMe : EntityAddr} (h : i.learnedAddr forMe = some i') :
    i'.addr.nonce = i.addr.nonce ∧ i'.addr.getPort = i.addr.getPort ∧
      (i.addr.isIp = true → i'.addr.isIp = true) := by
  rw [MyInst.learnedAddr] at h
  split_ifs at h
  · obtain ⟨t, ht, rfl⟩ := Option.map_eq_some_iff.mp h
    obtain ⟨hip, hport, -⟩ := setPort_spec ht
    exact ⟨rfl, hport.trans (Nat.mod_eq_of_lt (getPort_lt _)), fun _ ↦ hip⟩
  · rw [← Option.some_inj.mp h]
    exact ⟨rfl, rfl, id⟩

end Addresses

/-! ## `bind` -/

variable {s conf} {s' : Lifecycle} {calls : BindCalls} {errno : ℕ} {bindAddr : EntityAddr} {avoid : List ℕ} {r : ℤ}

variable (calls) in
/-- A system call outside the loops has failed with it. -/
def Fails (e : ℕ) : Prop :=
  calls.socket = .error e ∨ calls.setNonblock = some e ∨ (∃ a, calls.getsockname a = .error e) ∨
    calls.listen = some e

theorem closeListen_of_made (s : Lifecycle) (fd : ℕ) :
    ({ s with listenSd := some fd, sockets := fd :: s.sockets } : Lifecycle).closeListen =
      { s with listenSd := none } := by
  rw [closeListen]
  simp

/-- `Processor::bind` listens, or leaves nothing open. -/
theorem processorBind_cases (h : s.processorBind conf calls errno bindAddr avoid = some (r, s')) :
    (∃ fd t name, calls.socket = .ok fd ∧ calls.setNonblock = none ∧
      t = calls.attemptLoop conf avoid conf.retryCount 0 { addr := listenAddr conf bindAddr, errno } ∧
      t.bound = true ∧ calls.getsockname t.addr = .ok name ∧ calls.listen = none ∧ r = 0 ∧
      ({ s with listenSd := some fd, sockets := fd :: s.sockets } : Lifecycle).takeAddr bindAddr
        { t.addr with family := name.family, rest := name.rest } = some s') ∨
    s' = { s with listenSd := none } ∧ ((∃ e : ℕ, r = -e ∧ Fails calls e) ∨
      ∃ t, t = calls.attemptLoop conf avoid conf.retryCount 0 { addr := listenAddr conf bindAddr, errno } ∧
        t.bound = false ∧ r = t.r) := by
  rw [processorBind] at h
  cases hsocket : calls.socket with
  | error e =>
    rw [hsocket] at h
    obtain ⟨rfl, rfl⟩ := Prod.mk.inj (Option.some_inj.mp h)
    exact Or.inr ⟨rfl, Or.inl ⟨e, rfl, Or.inl hsocket⟩⟩
  | ok fd =>
    rw [hsocket] at h
    dsimp only at h
    rw [closeListen_of_made] at h
    cases hnonblock : calls.setNonblock with
    | some e =>
      rw [hnonblock] at h
      obtain ⟨rfl, rfl⟩ := Prod.mk.inj (Option.some_inj.mp h)
      exact Or.inr ⟨rfl, Or.inl ⟨e, rfl, Or.inr (Or.inl hnonblock)⟩⟩
    | none =>
      rw [hnonblock] at h
      dsimp only at h
      generalize ht : calls.attemptLoop conf avoid conf.retryCount 0
        { addr := listenAddr conf bindAddr, errno } = t at h
      by_cases hbound : t.bound = true
      · rw [if_pos hbound] at h
        cases hname : calls.getsockname t.addr with
        | error e =>
          rw [hname] at h
          obtain ⟨rfl, rfl⟩ := Prod.mk.inj (Option.some_inj.mp h)
          exact Or.inr ⟨rfl, Or.inl ⟨e, rfl, Or.inr (Or.inr (Or.inl ⟨_, hname⟩))⟩⟩
        | ok name =>
          rw [hname] at h
          cases hlisten : calls.listen with
          | some e =>
            rw [hlisten] at h
            obtain ⟨rfl, rfl⟩ := Prod.mk.inj (Option.some_inj.mp h)
            exact Or.inr ⟨rfl, Or.inl ⟨e, rfl, Or.inr (Or.inr (Or.inr hlisten))⟩⟩
          | none =>
            rw [hlisten] at h
            obtain ⟨u, htake, hu⟩ := Option.map_eq_some_iff.mp h
            obtain ⟨rfl, rfl⟩ := Prod.mk.inj hu
            exact Or.inl ⟨fd, t, name, rfl, rfl, rfl, hbound, hname, rfl, rfl, htake⟩
      · rw [if_neg hbound] at h
        obtain ⟨rfl, rfl⟩ := Prod.mk.inj (Option.some_inj.mp h)
        exact Or.inr ⟨rfl, Or.inr ⟨t, rfl, by simpa using hbound, rfl⟩⟩

variable (calls) in
/-- `getsockname` tells a port that was asked for, and an address with a family. -/
def Faithful : Prop := ∀ a b, a.isIp = true → calls.getsockname a = .ok b →
  b.isIp = true ∧ (a.getPort ≠ 0 → b.getPort = a.getPort)

theorem isIp_listenAddr (conf : BindConf) (bindAddr : EntityAddr) :
    (listenAddr conf bindAddr).isIp = true := by
  rw [listenAddr, EntityAddr.isIp]
  split_ifs with hip
  · exact hip
  · rfl
  · rfl

theorem getPort_listenAddr (conf : BindConf) (bindAddr : EntityAddr) (h : bindAddr.getPort ≠ 0) :
    (listenAddr conf bindAddr).getPort = bindAddr.getPort := by
  rw [listenAddr, if_pos (isIp_of_getPort h)]

/-- The socket is bound to the first candidate that the kernel grants. -/
theorem exists_candidate {t : Trial}
    (ht : t = calls.attemptLoop conf avoid conf.retryCount 0 { addr := listenAddr conf bindAddr, errno })
    (hbound : t.bound = true) :
    ∃ j, (BindCalls.candidates conf avoid (listenAddr conf bindAddr) 0 conf.retryCount).find?
        (calls.grants (listenAddr conf bindAddr)) = some (j, t.addr) ∧
      t.addr ∈ BindCalls.tries conf avoid (listenAddr conf bindAddr) := by
  have hsearch : calls.Searched conf avoid (listenAddr conf bindAddr) 0 conf.retryCount _ t :=
    ht ▸ BindCalls.searched_attemptLoop (isIp_listenAddr conf bindAddr) rfl (Or.inl rfl)
  cases hfind : (BindCalls.candidates conf avoid (listenAddr conf bindAddr) 0 conf.retryCount).find?
      (calls.grants (listenAddr conf bindAddr)) with
  | none => exact absurd (hbound.symm.trans (hsearch.failed hfind).1) (by decide)
  | some c =>
    have haddr := (hsearch.found c hfind).2
    have hmem := List.mem_of_find?_eq_some hfind
    rw [BindCalls.candidates, List.mem_flatMap] at hmem
    obtain ⟨j, -, hmem⟩ := hmem
    obtain ⟨b, hb, rfl⟩ := List.mem_map.mp hmem
    exact ⟨j, by rw [haddr], haddr ▸ hb⟩

theorem isIp_of_mem_tries {a b : EntityAddr} (ha : a.isIp = true)
    (hb : b ∈ BindCalls.tries conf avoid a) :
    b.isIp = true := by
  rw [BindCalls.tries] at hb
  split_ifs at hb
  · exact List.mem_singleton.mp hb ▸ ha
  · obtain ⟨p, -, rfl⟩ := List.mem_map.mp hb
    exact ha

/-- It has the port that was asked for, if there is one. -/
theorem getPort_of_mem_tries {b : EntityAddr} (hport : bindAddr.getPort ≠ 0)
    (hb : b ∈ BindCalls.tries conf avoid (listenAddr conf bindAddr)) : b.getPort = bindAddr.getPort := by
  have hsame := getPort_listenAddr conf bindAddr hport
  rw [BindCalls.tries, if_pos (hsame ▸ hport), List.mem_singleton] at hb
  rw [hb, hsame]

/-- The messenger goes by the nonce of its `Processor` and by the port it listens on. -/
theorem takeAddr_spec {addr : EntityAddr} (h : s.takeAddr bindAddr addr = some s')
    (hip : addr.isIp = true)
    (hport : bindAddr.getPort ≠ 0 → addr.getPort = bindAddr.getPort) :
    s'.inst.addr.nonce = s.nonce % 2 ^ 32 ∧ s'.inst.addr.getPort = addr.getPort ∧ s'.inst.addr.isIp = true ∧
      s' = { s with
        inst := s'.inst, announced := s.announced ++ [(s.rebinds, s'.inst.addr)], port := addr.getPort } := by
  rw [takeAddr] at h
  obtain ⟨inst, hinst, rfl⟩ := Option.map_eq_some_iff.mp h
  have hkept : inst.addr.getPort = bindAddr.getPort ∧ (bindAddr.isIp = true → inst.addr.isIp = true) := by
    split_ifs at hinst
    · obtain ⟨-, hport, hip⟩ := learnedAddr_spec hinst
      exact ⟨hport, hip⟩
    · rw [← Option.some_inj.mp hinst]
      exact ⟨rfl, id⟩
  dsimp only
  -- a port that the caller has not chosen is that of the socket
  by_cases hzero : inst.addr.getPort = 0
  · rw [if_pos hzero]
    exact ⟨rfl, rfl, hip, rfl⟩
  · rw [if_neg hzero]
    have hne : bindAddr.getPort ≠ 0 := hkept.1 ▸ hzero
    exact ⟨rfl, hkept.1.trans (hport hne).symm, isIp_of_getPort hzero, rfl⟩

/-- The end of `bind` stops at an assertion with an address that has no family: the blank one, when the
messenger knows its own address, and any other, when it is to learn it. -/
theorem takeAddr_eq_none_iff {addr : EntityAddr} : s.takeAddr bindAddr addr = none ↔
    bindAddr.isIp = false ∧ (bindAddr ≠ .blank ↔ s.inst.needAddr = true) := by
  rw [takeAddr, Option.map_eq_none_iff]
  by_cases hblank : bindAddr = .blank
  · rw [if_neg (not_not_intro hblank), hblank]
    dsimp only
    split_ifs with hneed
    · simp [hneed]
    · exact iff_of_true rfl ⟨rfl, iff_of_false (not_not_intro rfl) hneed⟩
  · rw [if_pos hblank, MyInst.learnedAddr_eq_none_iff, and_comm]
    simp only [ne_eq, hblank, not_false_eq_true, true_iff]

/-- `bind` stops at an assertion only at its end, on a socket that listens. -/
theorem processorBind_eq_none_iff : s.processorBind conf calls errno bindAddr avoid = none ↔
    (∃ fd, calls.socket = .ok fd) ∧ calls.setNonblock = none ∧
      (∃ j b name, (BindCalls.candidates conf avoid (listenAddr conf bindAddr) 0 conf.retryCount).find?
        (calls.grants (listenAddr conf bindAddr)) = some (j, b) ∧ calls.getsockname b = .ok name) ∧
      calls.listen = none ∧ bindAddr.isIp = false ∧ (bindAddr ≠ .blank ↔ s.inst.needAddr = true) := by
  rw [processorBind]
  cases hsocket : calls.socket with
  | error e => simp
  | ok fd => cases hnonblock : calls.setNonblock with
    | some e => simp
    | none =>
      dsimp only
      generalize ht : calls.attemptLoop conf avoid conf.retryCount 0
        { addr := listenAddr conf bindAddr, errno } = t
      split_ifs with hbound
      · obtain ⟨j, hfind, -⟩ := exists_candidate ht.symm hbound
        cases hname : calls.getsockname t.addr with
        | error e => simp [hfind, hname]
        | ok name => cases hlisten : calls.listen with
          | some e => simp
          | none =>
            dsimp only
            rw [Option.map_eq_none_iff, takeAddr_eq_none_iff]
            exact ⟨fun h ↦ ⟨⟨fd, rfl⟩, rfl, ⟨j, _, name, hfind, hname⟩, rfl, h⟩, fun h ↦ h.2.2.2.2⟩
      · refine iff_of_false (by simp) fun h ↦ ?_
        obtain ⟨j, b, -, hfind, -⟩ := h.2.2.1
        have hsearch : calls.Searched conf avoid (listenAddr conf bindAddr) 0 conf.retryCount _ t :=
          ht ▸ BindCalls.searched_attemptLoop (isIp_listenAddr conf bindAddr) rfl (Or.inl rfl)
        exact hbound (hsearch.found _ hfind).1

/-- What `bind` of a closed `Processor` may come to. -/
inductive Comes (s : Lifecycle) (conf : BindConf) (calls : BindCalls) (errno : ℕ) (bindAddr : EntityAddr)
    (avoid : List ℕ) : ℤ → Lifecycle → Prop
  /-- It listens on a socket that is bound to the first candidate the kernel grants. -/
  | listens (fd j : ℕ) (b name : EntityAddr) (s' : Lifecycle) (hsocket : calls.socket = .ok fd)
      (hfirst : (BindCalls.candidates conf avoid (listenAddr conf bindAddr) 0 conf.retryCount).find?
        (calls.grants (listenAddr conf bindAddr)) = some (j, b))
      (hname : calls.getsockname b = .ok name) (hlisten : s'.listenSd = some fd)
      (hsockets : s'.sockets = fd :: s.sockets) (hport : s'.port = name.getPort) :
    Comes s conf calls errno bindAddr avoid 0 s'
  | fails (e : ℕ) (h : Fails calls e) : Comes s conf calls errno bindAddr avoid (-e) s
  | finds (r : ℤ) (hr : r < 0)
      (hnone : (BindCalls.candidates conf avoid (listenAddr conf bindAddr) 0 conf.retryCount).find?
        (calls.grants (listenAddr conf bindAddr)) = none) :
    Comes s conf calls errno bindAddr avoid r s
  /-- All ports of the range are to be avoided: there is no error to return. -/
  | silent (hzero : errno = 0) (hpos : 0 < conf.retryCount)
      (hnil : BindCalls.tries conf avoid (listenAddr conf bindAddr) = []) :
    Comes s conf calls errno bindAddr avoid 0 s

/-- **What `bind` comes to.** It listens on a socket that is bound to the first candidate that the
kernel grants; or it has closed the socket, left the messenger as it was, and returns an error. But
if all ports of the range are to be avoided, it makes no system call that could fail, and returns
what was in `errno`. -/
theorem processorBind_spec (hclosed : s.listenSd = none) (herrno : ∀ e, calls.Reports e → 0 < e)
    (h : s.processorBind conf calls errno bindAddr avoid = some (r, s')) :
    Comes s conf calls errno bindAddr avoid r s' := by
  rcases processorBind_cases h with ⟨fd, t, name, hsocket, -, ht, hbound, hname, -, rfl, htake⟩ | ⟨rfl, hr⟩
  · -- the loops have found a socket
    obtain ⟨j, hfind, -⟩ := exists_candidate ht hbound
    rw [takeAddr] at htake
    obtain ⟨inst, -, rfl⟩ := Option.map_eq_some_iff.mp htake
    exact .listens fd j t.addr name _ hsocket hfind hname rfl rfl rfl
  · rw [show ({ s with listenSd := none } : Lifecycle) = s by rw [← hclosed]]
    rcases hr with ⟨e, rfl, hfails⟩ | ⟨t, ht, hbound, rfl⟩
    · exact .fails e hfails
    · have hsearch : calls.Searched conf avoid (listenAddr conf bindAddr) 0 conf.retryCount _ t :=
        ht ▸ BindCalls.searched_attemptLoop (isIp_listenAddr conf bindAddr) rfl (Or.inl rfl)
      cases hfind : (BindCalls.candidates conf avoid (listenAddr conf bindAddr) 0 conf.retryCount).find?
          (calls.grants (listenAddr conf bindAddr)) with
      | some c => exact absurd (hbound.symm.trans (hsearch.found c hfind).1) (by decide)
      | none =>
        rcases (hsearch.failed hfind).2 with ⟨-, hr, -⟩ | ⟨hpos, hr, hreports | ⟨hnil, hsame⟩⟩
        · exact .finds _ (hr.trans_lt (show (-1 : ℤ) < 0 by decide)) hfind
        · have hpos := herrno _ hreports
          exact .finds _ (by omega) hfind
        · -- no call has failed, so `errno` is what it was
          change t.errno = errno at hsame
          rcases Nat.eq_zero_or_pos errno with hzero | herr
          · rw [hr, hsame, hzero]
            exact .silent rfl hpos hnil
          · exact .finds _ (by omega) hfind

/-- The first port of the range is not free. -/
def secondPort : BindCalls :=
  { socket := .ok 5, bind := fun _ a ↦ if a.getPort = 5800 then some 98 else none }

theorem processorBind_spec_second_port :
    ∃ s', ({} : Lifecycle).processorBind {} secondPort 0 .blank [] = some (0, s') ∧ s'.port = 5801 ∧
      Comes {} {} secondPort 0 .blank [] 0 s' := by
  have herrno (e : ℕ) (h : secondPort.Reports e) : 0 < e := by
    rcases h with ⟨i, b, hb⟩ | ⟨i, hs⟩
    · simp only [secondPort] at hb
      split_ifs at hb
      exact Option.some_inj.mp hb ▸ by decide
    · cases hs
  have hsome : (({} : Lifecycle).processorBind {} secondPort 0 .blank []).any (fun r ↦
      r.1 = 0 ∧ r.2.port = 5801) = true := by decide +kernel
  obtain ⟨⟨r, s'⟩, hbind, hr⟩ := (Option.any_eq_true _ _).mp hsome
  obtain ⟨hzero, hport⟩ : r = 0 ∧ s'.port = 5801 := of_decide_eq_true hr
  subst hzero
  exact ⟨s', hbind, hport, processorBind_spec rfl herrno hbind⟩

/-! ## Every run

One lemma for each call, and a step of the messenger is one or two of these. -/

/-- The only socket that is open is the one that listens; a worker watches nothing else; without a
bound messenger there is none; and the address of the messenger has the nonce and the port it can be
reached by. -/
structure Sound (s : Lifecycle) : Prop where
  sockets : s.sockets = s.listenSd.toList
  worker : s.worker = true → s.listenSd.isSome = true
  idle : s.didBind = false → s.listenSd = none
  nonce : s.nonce = (s.baseNonce + 1000000 * s.rebinds) % 2 ^ 64
  address : s.listenSd.isSome = true → s.inst.addr.nonce = s.nonce % 2 ^ 32 ∧ s.inst.addr.getPort = s.port ∧
    s.inst.addr.isIp = true
  announced : ∀ x ∈ s.announced, x.1 ≤ s.rebinds ∧ x.2.nonce = (s.baseNonce + 1000000 * x.1) % 2 ^ 32

/-- `bind` is called on a messenger that is not bound, and `getsockname` tells the truth. -/
def Proper (s : Lifecycle) : Event → Prop
  | .bind calls _ _ => (s.started = true ∨ s.didBind = false) ∧ Faithful calls
  | .rebind calls _ _ => Faithful calls
  | _ => True

theorem sound_start (baseNonce : ℕ) (h : baseNonce < 2 ^ 64) : Sound
    { baseNonce, nonce := baseNonce } where
  sockets := rfl
  worker := nofun
  idle _ := rfl
  nonce := (Nat.mod_eq_of_lt h).symm
  address := nofun
  announced := nofun

theorem Sound.processorStop (h : s.Sound) : s.processorStop.Sound ∧ s.processorStop.listenSd = none ∧
    s.processorStop.worker = false := by
  rw [Lifecycle.processorStop]
  cases hlisten : s.listenSd with
  | none =>
    refine ⟨h, hlisten, ?_⟩
    by_contra hworker
    have hsome := h.worker (by simpa using hworker)
    rw [hlisten] at hsome
    cases hsome
  | some fd =>
    have hsockets := h.sockets
    rw [hlisten] at hsockets
    refine ⟨⟨?_, nofun, fun _ ↦ rfl, h.nonce, nofun, h.announced⟩, rfl, rfl⟩
    simp [closeListen, hlisten, hsockets]

theorem Sound.processorStart (h : s.Sound) : s.processorStart.Sound := by
  rw [Lifecycle.processorStart]
  split_ifs with hlisten
  · refine ⟨h.sockets, fun _ ↦ ?_, h.idle, h.nonce, h.address, h.announced⟩
    obtain ⟨fd, hfd, -⟩ := (Option.any_eq_true _ _).mp hlisten
    exact Option.isSome_iff_exists.mpr ⟨fd, hfd⟩
  · exact h

/-- `bind` on a messenger without a socket; whether the messenger is bound is settled by the
caller. -/
theorem Sound.processorBind (h : s.Sound) (hlisten : s.listenSd = none) (hcalls : Faithful calls)
    (hbind : s.processorBind conf calls errno bindAddr avoid = some (r, s')) (didBind : Bool)
    (hdid : didBind = false → r < 0) : ({ s' with didBind } : Lifecycle).Sound := by
  have hsockets : s.sockets = [] := by
    rw [h.sockets, hlisten]
    rfl
  have hworker : s.worker = true → False := fun hw ↦ by
    have hsome := h.worker hw
    rw [hlisten] at hsome
    cases hsome
  rcases processorBind_cases hbind with ⟨fd, t, name, -, -, ht, hbound, hname, -, rfl, htake⟩ | ⟨rfl, -⟩
  · obtain ⟨j, -, hmem⟩ := exists_candidate ht hbound
    obtain ⟨hip, hport⟩ := hcalls _ _ (isIp_of_mem_tries (isIp_listenAddr conf bindAddr) hmem) hname
    have hgot (hne : bindAddr.getPort ≠ 0) : name.getPort = bindAddr.getPort := by
      have hsame := getPort_of_mem_tries hne hmem
      exact (hport (hsame ▸ hne)).trans hsame
    obtain ⟨hnonce, hport', hip', hs'⟩ := takeAddr_spec htake hip hgot
    rw [hs']
    refine ⟨congrArg (fd :: ·) hsockets, fun hw ↦ (hworker hw).elim, fun hno ↦ ?_, h.nonce,
      fun _ ↦ ⟨hnonce, hport', hip'⟩, fun x hx ↦ ?_⟩
    · exact absurd (hdid hno) (by decide)
    · rcases List.mem_append.mp hx with hx | hx
      · exact h.announced x hx
      · rw [List.mem_singleton.mp hx]
        refine ⟨le_rfl, hnonce.trans ?_⟩
        change s.nonce % 2 ^ 32 = (s.baseNonce + 1000000 * s.rebinds) % 2 ^ 32
        rw [h.nonce, Nat.mod_mod_of_dvd _ (by decide)]
  · refine ⟨hsockets, fun hw ↦ (hworker hw).elim, fun _ ↦ rfl, h.nonce, nofun, h.announced⟩

/-- `Processor::rebind`, of a messenger that has closed its socket. -/
theorem Sound.processorRebind (h : s.Sound) (hlisten : s.listenSd = none) (hdid : s.didBind = true)
    (hcalls : Faithful calls) (hbind : s.processorRebind conf calls errno avoid = some (r, s')) : s'.Sound := by
  rw [Lifecycle.processorRebind] at hbind
  obtain ⟨addr, -, hbind⟩ := Option.bind_eq_some_iff.mp hbind
  dsimp only at hbind
  have hnext : ({ s with
      nonce := (s.nonce + 1000000) % 2 ^ 64
      inst := { s.inst with addr := { s.inst.addr with nonce := (s.nonce + 1000000) % 2 ^ 64 % 2 ^ 32 } }
      rebinds := s.rebinds + 1 } : Lifecycle).Sound := by
    refine ⟨h.sockets, h.worker, h.idle, ?_, fun hsome ↦ ?_, fun x hx ↦ ?_⟩
    · change (s.nonce + 1000000) % 2 ^ 64 = (s.baseNonce + 1000000 * (s.rebinds + 1)) % 2 ^ 64
      rw [h.nonce, Nat.mod_add_mod, Nat.mul_succ, Nat.add_assoc]
    · change s.listenSd.isSome = true at hsome
      rw [hlisten] at hsome
      cases hsome
    · exact ⟨(h.announced x hx).1.trans (Nat.le_succ _), (h.announced x hx).2⟩
  have hsound := hnext.processorBind hlisten hcalls hbind true nofun
  have hsame : s'.didBind = true := by
    rcases processorBind_cases hbind with ⟨fd, t, name, -, -, -, -, -, -, -, htake⟩ | ⟨rfl, -⟩
    · rw [Lifecycle.takeAddr] at htake
      obtain ⟨inst, -, rfl⟩ := Option.map_eq_some_iff.mp htake
      exact hdid
    · exact hdid
  rwa [show ({ s' with didBind := true } : Lifecycle) = s' by rw [← hsame]] at hsound

/-- The address changes, but for its nonce and its port. -/
theorem Sound.readdress (h : s.Sound) {inst : MyInst} (hnonce : inst.addr.nonce = s.inst.addr.nonce)
    (hport : inst.addr.getPort = s.inst.addr.getPort) (hip : s.inst.addr.isIp = true → inst.addr.isIp = true) :
    ({ s with inst } : Lifecycle).Sound := by
  refine ⟨h.sockets, h.worker, h.idle, h.nonce, fun hsome ↦ ?_, h.announced⟩
  obtain ⟨hnonce', hport', hip'⟩ := h.address hsome
  exact ⟨hnonce.trans hnonce', hport.trans hport', hip hip'⟩

/-- `bind` of a messenger that is not started. -/
theorem Sound.bind {calls : BindCalls} {errno : ℕ} {bindAddr : EntityAddr} {r : ℤ} (h : s.Sound)
    (hproper : s.Proper (.bind calls errno bindAddr))
    (hcall : s.call conf (.bind calls errno bindAddr) = some (r, s')) : s'.Sound := by
  rw [call] at hcall
  by_cases hstarted : s.started = true
  · rw [if_pos hstarted] at hcall
    obtain ⟨-, rfl⟩ := Prod.mk.inj (Option.some_inj.mp hcall)
    exact h
  · rw [if_neg hstarted] at hcall
    obtain ⟨⟨r', t⟩, hbind, heq⟩ := Option.map_eq_some_iff.mp hcall
    obtain ⟨-, rfl⟩ := Prod.mk.inj heq
    have hfree := hproper.1.resolve_left hstarted
    dsimp only
    by_cases hr : 0 ≤ r'
    · rw [if_pos hr]
      exact h.processorBind (h.idle hfree) hproper.2 hbind true nofun
    · rw [if_neg hr]
      have hsound := h.processorBind (h.idle hfree) hproper.2 hbind false fun _ ↦ by omega
      have hsame : t.didBind = false := by
        rcases processorBind_cases hbind with ⟨fd, t', name, -, -, -, -, -, -, hzero, -⟩ | ⟨rfl, -⟩
        · exact absurd hzero (by omega)
        · exact hfree
      rwa [show ({ t with didBind := false } : Lifecycle) = t by rw [← hsame]] at hsound

theorem Sound.rebind {calls : BindCalls} {errno : ℕ} {avoid : List ℕ} {r : ℤ} (h : s.Sound)
    (hproper : s.Proper (.rebind calls errno avoid))
    (hcall : s.call conf (.rebind calls errno avoid) = some (r, s')) : s'.Sound := by
  rw [call] at hcall
  split_ifs at hcall with hdid
  obtain ⟨⟨r', t⟩, hbind, heq⟩ := Option.map_eq_some_iff.mp hcall
  obtain ⟨-, rfl⟩ := Prod.mk.inj heq
  obtain ⟨hstop, hlisten, -⟩ := h.processorStop
  have hdid' : s.processorStop.didBind = true := by
    rw [Lifecycle.processorStop]
    split_ifs <;> exact hdid
  have hsound := hstop.processorRebind hlisten hdid' hproper hbind
  dsimp only
  split_ifs
  · exact hsound.processorStart
  · exact hsound

theorem sound_step {e : Event} (h : s.Sound) (hproper : s.Proper e) (hstep : s.step conf e = some s') :
    s'.Sound := by
  rw [step, Option.map_eq_some_iff] at hstep
  obtain ⟨⟨r, u⟩, hcall, rfl⟩ := hstep
  cases e with
  | bind calls errno bindAddr => exact h.bind hproper hcall
  | rebind calls errno avoid => exact h.rebind hproper hcall
  | unbind =>
    obtain ⟨-, rfl⟩ := Prod.mk.inj (Option.some_inj.mp hcall)
    split_ifs
    · obtain ⟨hstop, hlisten, -⟩ := h.processorStop
      exact ⟨hstop.sockets, hstop.worker, fun _ ↦ hlisten, hstop.nonce, hstop.address, hstop.announced⟩
    · exact h
  | start =>
    rw [call] at hcall
    split_ifs at hcall
    · obtain ⟨-, rfl⟩ := Prod.mk.inj (Option.some_inj.mp hcall)
      exact h
    · obtain ⟨-, rfl⟩ := Prod.mk.inj (Option.some_inj.mp hcall)
      dsimp only
      split_ifs with hdid
      · exact ⟨h.sockets, h.worker, h.idle, h.nonce, h.address, h.announced⟩
      · have hlisten := h.idle (by simpa using hdid)
        refine ⟨h.sockets, h.worker, h.idle, h.nonce, fun hsome ↦ ?_, h.announced⟩
        change s.listenSd.isSome = true at hsome
        rw [hlisten] at hsome
        cases hsome
  | ready =>
    rw [call] at hcall
    split_ifs at hcall
    obtain ⟨-, rfl⟩ := Prod.mk.inj (Option.some_inj.mp hcall)
    dsimp only
    split_ifs
    · exact Sound.processorStart ⟨h.sockets, h.worker, h.idle, h.nonce, h.address, h.announced⟩
    · exact ⟨h.sockets, h.worker, h.idle, h.nonce, h.address, h.announced⟩
  | shutdown =>
    rw [call] at hcall
    split_ifs at hcall
    · obtain ⟨-, rfl⟩ := Prod.mk.inj (Option.some_inj.mp hcall)
      exact h
    · obtain ⟨-, rfl⟩ := Prod.mk.inj (Option.some_inj.mp hcall)
      exact h
    · obtain ⟨-, rfl⟩ := Prod.mk.inj (Option.some_inj.mp hcall)
      obtain ⟨hstop, hlisten, -⟩ := h.processorStop
      exact ⟨hstop.sockets, hstop.worker, fun _ ↦ hlisten, hstop.nonce, hstop.address, hstop.announced⟩
  | wait =>
    rw [call] at hcall
    split_ifs at hcall
    · obtain ⟨-, rfl⟩ := Prod.mk.inj (Option.some_inj.mp hcall)
      exact h
    · obtain ⟨-, rfl⟩ := Prod.mk.inj (Option.some_inj.mp hcall)
      exact ⟨h.sockets, h.worker, h.idle, h.nonce, h.address, h.announced⟩
  | learnedAddr forMe =>
    obtain ⟨inst, hlearned, heq⟩ := Option.map_eq_some_iff.mp hcall
    obtain ⟨-, rfl⟩ := Prod.mk.inj heq
    obtain ⟨hnonce, hport, hip⟩ := learnedAddr_spec hlearned
    exact h.readdress hnonce hport hip
  | setAddrUnknowns addr =>
    rw [call] at hcall
    split_ifs at hcall
    · obtain ⟨a, ha, heq⟩ := Option.map_eq_some_iff.mp hcall
      obtain ⟨-, rfl⟩ := Prod.mk.inj heq
      obtain ⟨hip, hport, hnonce, -⟩ := setPort_spec ha
      exact h.readdress hnonce (hport.trans (Nat.mod_eq_of_lt (getPort_lt _))) fun _ ↦ hip
    · obtain ⟨-, rfl⟩ := Prod.mk.inj (Option.some_inj.mp hcall)
      exact h

/-- Fewer than `2 ^ 26` steps of a million do not come round to the same 32 bits. -/
theorem nonce_ne {base i j : ℕ} (hlt : i < j) (hfew : j < i + 2 ^ 26) :
    (base + 1000000 * i) % 2 ^ 32 ≠ (base + 1000000 * j) % 2 ^ 32 := by
  omega

/-- **The life of a messenger**, in every run of calls. It keeps no socket open but the one it
listens on, and none without being bound, so that it can be destroyed then; the address it goes by
has the port and the nonce under which it listens; and after each of fewer than `2 ^ 26` rebinds it
goes by a nonce it did not have before. -/
theorem sound_of_run {baseNonce : ℕ} {es : List Event} (hbase : baseNonce < 2 ^ 64)
    (hproper : Run.Meets (step conf) Proper ({ baseNonce, nonce := baseNonce } : Lifecycle) es)
    (hrun : Run.exec (step conf) ({ baseNonce, nonce := baseNonce } : Lifecycle) es = some s) :
    s.sockets = s.listenSd.toList ∧ (s.worker = true → s.listenSd.isSome = true) ∧
      (s.didBind = false → s.listenSd = none ∧ s.worker = false) ∧
      (s.listenSd.isSome = true → s.inst.addr.getPort = s.port ∧ s.inst.addr.nonce = s.nonce % 2 ^ 32) ∧
      ∀ x ∈ s.announced, ∀ y ∈ s.announced, x.1 < y.1 → y.1 < x.1 + 2 ^ 26 → x.2.nonce ≠ y.2.nonce := by
  have h : s.Sound := Run.invariant_of_meets (fun _ _ _ ↦ sound_step) (sound_start baseNonce hbase) hproper hrun
  refine ⟨h.sockets, h.worker, fun hno ↦ ⟨h.idle hno, ?_⟩, fun hsome ↦ ?_, fun x hx y hy hlt hfew ↦ ?_⟩
  · by_contra hworker
    have hsome := h.worker (by simpa using hworker)
    rw [h.idle hno] at hsome
    cases hsome
  · obtain ⟨hnonce, hport, -⟩ := h.address hsome
    exact ⟨hport, hnonce⟩
  · rw [(h.announced x hx).2, (h.announced y hy).2]
    exact nonce_ne hlt hfew

/-- The messenger is bound to a port of the range, started, and bound anew while it is ready; then
it is shut down and waited for. -/
def rebindRun : List Event :=
  [.bind secondPort 0 .blank, .start, .ready, .rebind secondPort 0 [5802], .shutdown, .wait]

theorem sound_of_rebindRun :
    ∃ s, Run.exec (step {}) ({ baseNonce := 7, nonce := 7 } : Lifecycle) rebindRun = some s ∧
      s.sockets = s.listenSd.toList ∧ (s.announced.map fun x ↦ x.2.nonce) = [7, 1000007] ∧
      (s.announced.map fun x ↦ x.2.getPort) = [5801, 5803] := by
  have hfaithful : Faithful secondPort := by
    intro a b ha hb
    obtain rfl := Except.ok.inj hb
    exact ⟨ha, fun _ ↦ rfl⟩
  have hproper : Run.Meets (step {}) Proper ({ baseNonce := 7, nonce := 7 } : Lifecycle) rebindRun := by
    refine ⟨⟨Or.inr rfl, hfaithful⟩, fun s₁ _ ↦ ⟨trivial, fun s₂ _ ↦ ⟨trivial, fun s₃ _ ↦ ⟨hfaithful, fun s₄ _ ↦
      ⟨trivial, fun s₅ _ ↦ ⟨trivial, fun s₆ _ ↦ trivial⟩⟩⟩⟩⟩⟩
  have hend : ((Run.exec (step {}) ({ baseNonce := 7, nonce := 7 } : Lifecycle) rebindRun).any fun s ↦
      (s.announced.map fun x ↦ x.2.nonce) = [7, 1000007] ∧
        (s.announced.map fun x ↦ x.2.getPort) = [5801, 5803]) = true := by decide +kernel
  obtain ⟨s, hrun, hs⟩ := (Option.any_eq_true _ _).mp hend
  obtain ⟨hnonces, hports⟩ := of_decide_eq_true hs
  obtain ⟨hsockets, -⟩ := sound_of_run (by decide) hproper hrun
  exact ⟨s, hrun, hsockets, hnonces, hports⟩

end Lifecycle

end AsyncMessenger
