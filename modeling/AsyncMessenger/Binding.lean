import AsyncMessenger.ClientAsserts

/-!
# Looking for a port

`Processor::bind` makes a socket and binds it: to the port of the address it is given, or, if that
has none, to a port of a range. It makes several attempts, and in each of them goes through the
range, past the ports it is to avoid; whether it has found one is in `rc`, and what has gone wrong
in `errno`.

What it looks for is the first candidate that the kernel grants, in the order of the attempts and,
within an attempt, of the ports. The options are not negative.

The loops share their variables (`Trial`), and the address that is tried is one of them: after a
failed round over the range it has the last port of it, and gets port 0 again. `candidates` is the
list they stand for, written without them, and `searched_attemptLoop` says that the loops find its
first entry that is granted, or leave in `errno` what a failing call has reported.
-/

namespace AsyncMessenger

namespace EntityAddr

/-- An address with a family gets a port. -/
def withPort (a : EntityAddr) (port : ℕ) : EntityAddr :=
  { a with rest := (LittleEndian.encode 2 port).reverse ++ a.rest.drop 2 }

/-- `entity_addr_t()`. -/
def blank : EntityAddr := { rest := List.replicate 126 0 }

variable {a : EntityAddr} {p q : ℕ}

theorem setPort_of_isIp (h : a.isIp = true) (p : ℕ) : a.setPort p = some (a.withPort p) := if_pos h

@[simp] theorem isIp_withPort : (a.withPort p).isIp = a.isIp := rfl

@[simp] theorem nonce_withPort : (a.withPort p).nonce = a.nonce := rfl

@[simp] theorem withPort_withPort : (a.withPort p).withPort q = a.withPort q := by
  have hdrop : ((LittleEndian.encode 2 p).reverse ++ a.rest.drop 2).drop 2 = a.rest.drop 2 :=
    List.drop_left' (by rw [List.length_reverse, LittleEndian.length_encode])
  rw [withPort, withPort, withPort, hdrop]

theorem getPort_withPort (h : a.isIp = true) : (a.withPort p).getPort = p % 2 ^ 16 := by
  have htake : ((LittleEndian.encode 2 p).reverse ++ a.rest.drop 2).take 2 = (LittleEndian.encode 2 p).reverse :=
    List.take_left' (by rw [List.length_reverse, LittleEndian.length_encode])
  rw [getPort, isIp_withPort, if_pos h, withPort, htake, List.reverse_reverse, LittleEndian.decode_encode]
  rfl

end EntityAddr

/-- The options. -/
structure BindConf where
  bindIpv6 : Bool := false
  retryCount : ℕ := 3
  portMin : ℕ := 5800
  portMax : ℕ := 6300

/-- What the system calls return: an error number, or a result. -/
structure BindCalls where
  socket : Except ℕ ℕ
  setNonblock : Option ℕ := none
  /-- `setsockopt`, in each attempt. -/
  setsockopt : ℕ → Option ℕ := fun _ ↦ none
  /-- `bind`, in each attempt and for each address. -/
  bind : ℕ → EntityAddr → Option ℕ
  /-- `getsockname`, for the address the socket has been bound to. -/
  getsockname : EntityAddr → Except ℕ EntityAddr := .ok
  listen : Option ℕ := none

/-- The variables of the loops. -/
structure Trial where
  /-- `listen_addr`. -/
  addr : EntityAddr
  /-- `rc` is 0. -/
  bound : Bool := false
  errno : ℕ
  r : ℤ := -1

namespace BindCalls

variable (calls : BindCalls) (conf : BindConf) (avoid : List ℕ)

/-- The loop over the ports. -/
def portLoop (i : ℕ) : List ℕ → Trial → Trial
  | [], t => t
  | p :: ps, t =>
    if p ∈ avoid then portLoop i ps t
    else
      let t := { t with addr := t.addr.withPort p }
      match calls.bind i t.addr with
      | none => { t with bound := true }
      | some e => portLoop i ps { t with bound := false, errno := e }

/-- The range of ports. -/
def portRange : List ℕ := List.range' conf.portMin (conf.portMax + 1 - conf.portMin)

/-- The loop over the attempts, `n` of which are left. -/
def attemptLoop : ℕ → ℕ → Trial → Trial
  | 0, _, t => t
  | n + 1, i, t =>
    if t.addr.getPort ≠ 0 then
      match calls.setsockopt i with
      | some e => attemptLoop n (i + 1) { t with bound := false, errno := e, r := -e }
      | none => match calls.bind i t.addr with
        | some e => attemptLoop n (i + 1) { t with bound := false, errno := e, r := -e }
        | none => { t with bound := true }
    else
      let t := calls.portLoop avoid i (portRange conf) t
      if t.bound then t
      else attemptLoop n (i + 1) { t with addr := t.addr.withPort 0, r := -t.errno }

/-! ## The candidates

One attempt after the other: an address that has a port is tried as it is, and any other with every
port of the range that is not to be avoided. -/

/-- What may be tried in an attempt, for an address. -/
def tries (a : EntityAddr) : List EntityAddr :=
  if a.getPort ≠ 0 then [a] else ((portRange conf).filter (· ∉ avoid)).map a.withPort

/-- What may be tried from attempt `i` on, in this order. -/
def candidates (a : EntityAddr) (i n : ℕ) : List (ℕ × EntityAddr) :=
  (List.range' i n).flatMap fun j ↦ (tries conf avoid a).map fun b ↦ (j, b)

/-- The kernel grants it. -/
def grants (a : EntityAddr) (c : ℕ × EntityAddr) : Bool :=
  (calls.bind c.1 c.2).isNone && (a.getPort == 0 || (calls.setsockopt c.1).isNone)

variable {calls conf avoid} {a : EntityAddr} {i n : ℕ} {t : Trial}

theorem portLoop_spec (ps : List ℕ) :
    (∃ b, ((ps.filter (· ∉ avoid)).map t.addr.withPort).find? (fun b ↦ (calls.bind i b).isNone) = some b ∧
      (calls.portLoop avoid i ps t).bound = true ∧ (calls.portLoop avoid i ps t).addr = b) ∨
    ((ps.filter (· ∉ avoid)).map t.addr.withPort).find? (fun b ↦ (calls.bind i b).isNone) = none ∧
      (t.bound = false → (calls.portLoop avoid i ps t).bound = false) ∧
      (calls.portLoop avoid i ps t).addr.withPort 0 = t.addr.withPort 0 ∧
      ((ps.filter (· ∉ avoid) = [] ∧ (calls.portLoop avoid i ps t).errno = t.errno) ∨
        ∃ b, calls.bind i b = some (calls.portLoop avoid i ps t).errno) := by
  induction ps generalizing t with
  | nil => exact Or.inr ⟨rfl, id, rfl, Or.inl ⟨rfl, rfl⟩⟩
  | cons p ps ih =>
    rw [portLoop]
    by_cases hp : p ∈ avoid
    · rw [if_pos hp, List.filter_cons_of_neg (by simpa using hp)]
      exact ih
    · rw [if_neg hp, List.filter_cons_of_pos (by simpa using hp), List.map_cons]
      dsimp only
      cases hbind : calls.bind i (t.addr.withPort p) with
      | none => exact Or.inl ⟨t.addr.withPort p, List.find?_cons_of_pos (by rw [hbind]; rfl), rfl, rfl⟩
      | some e =>
        rw [List.find?_cons_of_neg (by rw [hbind]; simp)]
        have hmap : (t.addr.withPort p).withPort = t.addr.withPort := by
          funext q
          exact EntityAddr.withPort_withPort
        rcases ih (t := { t with addr := t.addr.withPort p, bound := false, errno := e }) with
          ⟨b, hfind, hbound, haddr⟩ | ⟨hfind, hbound, haddr, herrno⟩
        · exact Or.inl ⟨b, by rw [← hfind, hmap], hbound, haddr⟩
        · refine Or.inr ⟨by rw [← hfind, hmap], fun _ ↦ hbound rfl, ?_, Or.inr ?_⟩
          · rw [haddr, EntityAddr.withPort_withPort]
          · rcases herrno with ⟨-, herrno⟩ | herrno
            · exact ⟨_, by rw [herrno, hbind]⟩
            · exact herrno

variable (calls) in
/-- A system call of the loops has failed with it. -/
def Reports (e : ℕ) : Prop := (∃ i b, calls.bind i b = some e) ∨ ∃ i, calls.setsockopt i = some e

theorem candidates_succ (a : EntityAddr) (i n : ℕ) :
    candidates conf avoid a i (n + 1) =
      (tries conf avoid a).map (fun b ↦ (i, b)) ++ candidates conf avoid a (i + 1) n := by
  rw [candidates, List.range'_succ, List.flatMap_cons]
  rfl

variable (conf avoid) in
/-- What the loop over the attempts has come to, of the candidates from attempt `i` on. -/
structure Searched (a : EntityAddr) (i n : ℕ) (t t' : Trial) : Prop where
  found : ∀ c, (candidates conf avoid a i n).find? (calls.grants a) = some c → t'.bound = true ∧ t'.addr = c.2
  failed : (candidates conf avoid a i n).find? (calls.grants a) = none → t'.bound = false ∧
    (n = 0 ∧ t'.r = t.r ∧ t'.errno = t.errno ∨ 0 < n ∧ t'.r = -t'.errno ∧
      (calls.Reports t'.errno ∨ tries conf avoid a = [] ∧ t'.errno = t.errno))

/-- An attempt has failed, and the others come to an end. -/
theorem Searched.later {t u t' : Trial}
    (hno : ((tries conf avoid a).map (fun b ↦ (i, b))).find? (calls.grants a) = none)
    (hr : u.r = -u.errno)
    (herrno : calls.Reports u.errno ∨ tries conf avoid a = [] ∧ u.errno = t.errno)
    (h : calls.Searched conf avoid a (i + 1) n u t') : calls.Searched conf avoid a i (n + 1) t t' := by
  have hfind : (candidates conf avoid a i (n + 1)).find? (calls.grants a) =
      (candidates conf avoid a (i + 1) n).find? (calls.grants a) := by
    rw [candidates_succ, List.find?_append, hno, Option.none_or]
  refine ⟨fun c hc ↦ h.found c (hfind ▸ hc), fun hnone ↦ ?_⟩
  obtain ⟨hbound, hcases⟩ := h.failed (hfind ▸ hnone)
  refine ⟨hbound, Or.inr ⟨Nat.succ_pos n, ?_⟩⟩
  rcases hcases with ⟨-, hr', heq⟩ | ⟨-, hr', hcases⟩
  · rw [hr', heq]
    exact ⟨hr, herrno⟩
  · refine ⟨hr', ?_⟩
    rcases hcases with hreports | ⟨htries, heq⟩
    · exact Or.inl hreports
    · rw [heq]
      exact herrno

/-- The first candidate that the kernel grants is one of this attempt. -/
theorem Searched.first {t t' : Trial} {b : EntityAddr}
    (hfind : ((tries conf avoid a).map (fun b ↦ (i, b))).find? (calls.grants a) = some (i, b))
    (hbound : t'.bound = true) (haddr : t'.addr = b) : calls.Searched conf avoid a i (n + 1) t t' := by
  have hfound : (candidates conf avoid a i (n + 1)).find? (calls.grants a) = some (i, b) := by
    rw [candidates_succ, List.find?_append, hfind, Option.some_or]
  refine ⟨fun c hc ↦ ?_, fun hnone ↦ absurd (hfound.symm.trans hnone) (by simp)⟩
  rw [hfound, Option.some_inj] at hc
  exact ⟨hbound, haddr.trans (hc ▸ rfl)⟩

/-- An attempt for an address that has a port tries this address. -/
theorem find?_tries_of_port (hport : a.getPort ≠ 0) :
    ((tries conf avoid a).map (fun b ↦ (i, b))).find? (calls.grants a) =
      if calls.grants a (i, a) then some (i, a) else none := by
  rw [show tries conf avoid a = [a] from if_pos hport, List.map_singleton]
  split_ifs with hgrants
  · exact List.find?_cons_of_pos hgrants
  · exact List.find?_cons_of_neg hgrants

theorem tries_of_range (hport : a.getPort = 0) :
    tries conf avoid a = ((portRange conf).filter (· ∉ avoid)).map a.withPort :=
  if_neg (not_not.mpr hport)

/-- An attempt for an address without a port tries the ports of the range, and `bind` alone decides. -/
theorem find?_tries_of_range (hport : a.getPort = 0) :
    ((tries conf avoid a).map (fun b ↦ (i, b))).find? (calls.grants a) =
      ((((portRange conf).filter (· ∉ avoid)).map a.withPort).find? fun b ↦ (calls.bind i b).isNone).map
        fun b ↦ (i, b) := by
  have hgrants (b : EntityAddr) : calls.grants a (i, b) = (calls.bind i b).isNone := by
    simp [grants, hport]
  rw [tries_of_range hport, List.find?_map]
  exact congrArg (Option.map _) (congrArg (List.find? · _) (funext hgrants))

/-- **The search**: the loops come to the first candidate that the kernel grants. -/
theorem searched_attemptLoop (ha : a.isIp = true) (hbound : t.bound = false)
    (haddr : t.addr = a ∨ a.getPort = 0 ∧ t.addr.getPort = 0 ∧ t.addr.withPort = a.withPort) :
    calls.Searched conf avoid a i n t (calls.attemptLoop conf avoid n i t) := by
  induction n generalizing i t with
  -- no attempt is left, and nothing has been tried
  | zero => exact ⟨fun c hc ↦ (nomatch hc), fun _ ↦ ⟨hbound, Or.inl ⟨rfl, rfl, rfl⟩⟩⟩
  | succ n ih =>
    have hport : t.addr.getPort = a.getPort := by
      rcases haddr with rfl | ⟨hzero, hzero', -⟩
      · rfl
      · rw [hzero, hzero']
    rw [attemptLoop]
    by_cases hspecific : t.addr.getPort ≠ 0
    · -- the port of the address
      have hsame : t.addr = a := haddr.resolve_right fun h ↦ hspecific h.2.1
      have hfind : ((tries conf avoid a).map (fun b ↦ (i, b))).find? (calls.grants a) = _ :=
        find?_tries_of_port (hport ▸ hspecific)
      rw [if_pos hspecific]
      cases hopt : calls.setsockopt i with
      | some e =>
        refine Searched.later ?_ rfl (Or.inl (Or.inr ⟨i, hopt⟩)) (ih rfl haddr)
        rw [hfind, if_neg]
        rw [grants, hopt]
        simp [hport ▸ hspecific]
      | none =>
        dsimp only
        cases hbind : calls.bind i t.addr with
        | some e =>
          refine Searched.later ?_ rfl (Or.inl (Or.inl ⟨i, t.addr, hbind⟩)) (ih rfl haddr)
          rw [hfind, if_neg]
          rw [grants, ← hsame, hbind]
          simp
        | none =>
          have hgrants : calls.grants a (i, a) = true := by
            rw [grants, ← hsame, hbind, hopt]
            simp
          exact .first (hfind.trans (if_pos hgrants)) rfl hsame
    · -- the ports of the range
      have hzero : t.addr.getPort = 0 := not_not.mp hspecific
      have hmap : t.addr.withPort = a.withPort := by
        rcases haddr with rfl | ⟨-, -, hmap⟩
        · rfl
        · exact hmap
      have hfind : ((tries conf avoid a).map (fun b ↦ (i, b))).find? (calls.grants a) = _ :=
        find?_tries_of_range (hport ▸ hzero)
      rw [if_neg hspecific]
      dsimp only
      generalize hloop : calls.portLoop avoid i (portRange conf) t = u
      have hspec := @portLoop_spec calls avoid i t (portRange conf)
      rw [hloop, hmap] at hspec
      rcases hspec with ⟨b, hfirst, hbound', haddr'⟩ | ⟨hfirst, hkept, haddr', herrno⟩
      · rw [hfirst, Option.map_some] at hfind
        rw [if_pos hbound']
        exact .first hfind hbound' haddr'
      · -- no port was free: the address has port 0 again for the next attempt
        rw [hfirst, Option.map_none] at hfind
        have hunbound := hkept hbound
        rw [if_neg (by rw [hunbound]; simp)]
        have hnew : (u.addr.withPort 0).getPort = 0 := by
          rw [haddr', EntityAddr.getPort_withPort ha, Nat.zero_mod]
        have hnewMap : (u.addr.withPort 0).withPort = a.withPort := by
          funext q
          rw [haddr', EntityAddr.withPort_withPort]
        refine Searched.later hfind rfl ?_ (ih hunbound (Or.inr ⟨hport ▸ hzero, hnew, hnewMap⟩))
        rcases herrno with ⟨hnil, heq⟩ | ⟨b, hb⟩
        · exact Or.inr ⟨by rw [tries_of_range (hport ▸ hzero), hnil, List.map_nil], heq⟩
        · exact Or.inl (Or.inl ⟨i, b, hb⟩)

end BindCalls

end AsyncMessenger
