import AsyncMessenger.Overwriting

/-!
# Where calls leave the cached cursor

`last_p` is settled if it is at `end()`, where every call makes it seek again, or stands on a segment of
the list, at the place that its offset says. Whatever part a call asks for, and however it ends, it leaves
a settled cursor settled, as long as the list is short enough for `advance` to pass it. If the part is in
the list, the call visits it.

`Firm` is what has to hold of a list and its cursor for the calls to be right, and each call keeps
it. A part that is not in the list ends in a throw, after which the cursor is where the loop has
stopped: that is a place in the list, or its end.
-/

namespace AsyncMessenger

open Buffer

namespace Iter

variable {segs : List Bytes} {it : Iter} {o len : ℕ}

/-- The iterator is at `end()`, or stands where its offset says. -/
def Rests (segs : List Bytes) (it : Iter) : Prop := it.p = none ∨ it.At segs it.off.toNat

theorem At.rests (h : it.At segs o) : it.Rests segs := by
  obtain rfl := h.off_eq
  exact .inr h

/-- The loop ends with the bytes or with the list. -/
theorem At.walk_stops (h : it.At segs o) (hne : ∀ s ∈ segs, s ≠ []) (htotal : segs.flatten.length < 2 ^ 31)
    (strict : Bool) {fuel : ℕ} (hfuel : len ≤ fuel) :
    ∃ parts it' stop k, walk strict segs fuel len it = (parts, it', stop) ∧ it'.At segs (o + k) ∧
      Covers segs o k parts ∧ k ≤ len ∧ (k = len ∧ stop = none ∨
        segs.flatten.length < o + len ∧ stop = some .endOfBuffer) := by
  induction fuel generalizing it o len with
  | zero =>
    obtain rfl : len = 0 := Nat.le_zero.mp hfuel
    exact ⟨[], it, none, 0, rfl, h, .nil o, le_rfl, .inl ⟨rfl, rfl⟩⟩
  | succ fuel ih =>
    by_cases hlen : len = 0
    · rw [hlen, walk_zero]
      exact ⟨[], it, none, 0, rfl, h, .nil o, le_rfl, .inl ⟨rfl, rfl⟩⟩
    have hle := h.le
    by_cases hend : o = segs.flatten.length
    · rw [walk_end strict fuel hlen (h.p_eq_none (by omega))]
      exact ⟨[], it, _, 0, rfl, h, .nil o, Nat.zero_le len, .inr ⟨by omega, rfl⟩⟩
    obtain ⟨before, s, after, rfl, hp, hpOff, ho⟩ := h.segment (by omega)
    have hget : (before ++ s :: after).getD before.length [] = s := by simp
    have hin : o + (s.length - it.pOff) ≤ (before ++ s :: after).flatten.length := by
      rw [List.flatten_append, List.flatten_cons, List.length_append, List.length_append]
      omega
    obtain ⟨howmuch, hhow⟩ : ∃ k, min len (s.length - it.pOff) = k := ⟨_, rfl⟩
    obtain ⟨it', hadvance, hat⟩ := h.advance hne (n := howmuch) (by omega) (by omega) (by omega)
    obtain ⟨parts, it'', stop, k, hwalk, hat', hcovers, hk, hends⟩ :=
      ih hat (show len - howmuch ≤ fuel by omega)
    refine ⟨⟨before.length, it.pOff, howmuch⟩ :: parts, it'', stop, howmuch + k, ?_, ?_, ?_, by omega, ?_⟩
    · rw [walk_of_ok strict fuel hlen hp hpOff hhow hadvance, hwalk]
    · rw [← Nat.add_assoc]
      exact hat'
    · have hcons : Covers (before ++ s :: after)
          (((before ++ s :: after).take before.length).flatten.length + it.pOff)
          (howmuch + k) (⟨before.length, it.pOff, howmuch⟩ :: parts) :=
        @Covers.cons _ (before ++ s :: after) k parts ⟨before.length, it.pOff, howmuch⟩
          (by simp) (by rw [hget]; dsimp only; omega) (by dsimp only; omega)
          (by rw [List.take_left, ← ho]; exact hcovers)
      rwa [List.take_left, ← ho] at hcons
    · exact hends.imp (fun hall ↦ ⟨by omega, hall.2⟩) fun hbeyond ↦ ⟨by omega, hbeyond.2⟩

theorem ofBegin_rests (hne : ∀ s ∈ segs, s ≠ []) : (ofBegin segs).Rests segs := by
  cases segs with
  | nil => exact .inl rfl
  | cons s ss =>
    have hs : 0 < s.length := List.length_pos_of_ne_nil (hne s List.mem_cons_self)
    have hbegin : ofBegin (s :: ss) = { p := some 0 } := by rw [ofBegin, if_neg (List.cons_ne_nil s ss)]
    rw [hbegin]
    exact At.rests (o := 0) ⟨rfl, .inr ⟨[], s, ss, rfl, rfl, hs, rfl⟩⟩

/-- A move from the beginning that throws leaves the iterator there or at the end. -/
theorem stopped_rests (hne : ∀ s ∈ segs, s ≠ []) (n : ℤ) : ((ofBegin segs).stopped segs n).Rests segs := by
  rw [stopped]
  by_cases hpos : 0 < n
  · rw [if_pos hpos]
    exact .inl rfl
  rw [if_neg hpos]
  have hback : backStopped segs ((ofBegin segs).p.getD segs.length) (ofBegin segs).pOff (ofBegin segs).off =
      ofBegin segs := by
    cases segs with
    | nil => rfl
    | cons s ss =>
      rw [ofBegin, if_neg (List.cons_ne_nil s ss)]
      show backStopped (s :: ss) 0 0 0 = { p := some 0 }
      rw [backStopped, if_neg (List.cons_ne_nil s ss)]
      rfl
  rw [hback]
  exact ofBegin_rests hne

/-- Seeking gets to the offset, or stops at the end or at the beginning. -/
theorem trySeek_rests (hne : ∀ s ∈ segs, s ≠ []) (htotal : segs.flatten.length < 2 ^ 31) (off : UInt32) :
    ∃ it' stop, trySeek segs off = (it', stop) ∧ it'.Rests segs ∧
      (stop = none ∧ it'.At segs off.toNat ∨
        segs.flatten.length < off.toNat ∧ stop = some .endOfBuffer) := by
  by_cases hle : off.toNat ≤ segs.flatten.length
  · obtain ⟨it', hseek, hat⟩ := trySeek_ok hne hle (hle.trans_lt htotal)
    exact ⟨it', none, hseek, hat.rests, .inl ⟨rfl, hat⟩⟩
  · have hbeyond : segs.flatten.length < off.toNat := Nat.not_le.mp hle
    have herror := trySeek_error hne (.inl hbeyond)
    obtain ⟨⟨it', stop⟩, hseek⟩ : ∃ r, trySeek segs off = r := ⟨_, rfl⟩
    rw [hseek] at herror
    refine ⟨it', stop, hseek, ?_, .inr ⟨hbeyond, herror⟩⟩
    cases hadvance : (ofBegin segs).advance segs (toInt off.toNat) with
    | ok it'' =>
      rw [trySeek, tryAdvance_of_ok hadvance] at hseek
      exact absurd ((Prod.mk.inj hseek).2.trans herror) (by simp)
    | error e =>
      rw [trySeek, tryAdvance_of_error hadvance] at hseek
      rw [← (Prod.mk.inj hseek).1]
      exact stopped_rests hne _

/-- An iterator at rest goes through the part as far as there is a list. -/
theorem Rests.proceed (h : it.Rests segs) (hne : ∀ s ∈ segs, s ≠ []) (htotal : segs.flatten.length < 2 ^ 31)
    (strict : Bool) (len : ℕ) :
    ∃ parts it' stop k, it.proceed strict segs len = (parts, it', stop) ∧ it'.Rests segs ∧
      Covers segs it.off.toNat k parts ∧ k ≤ len ∧ (k = len ∧ stop = none ∨
        segs.flatten.length < it.off.toNat + len ∧ stop = some .endOfBuffer) := by
  obtain ⟨it₁, stop, hresume, hrests, hgo⟩ : ∃ it₁ stop, it.tryResume segs = (it₁, stop) ∧
      it₁.Rests segs ∧ (stop = none ∧ it₁.At segs it.off.toNat ∨
        segs.flatten.length < it.off.toNat ∧ stop = some .endOfBuffer) := by
    rw [tryResume]
    by_cases hp : it.p = none
    · rw [if_pos hp]
      exact trySeek_rests hne htotal it.off
    · rw [if_neg hp]
      have hat := h.resolve_left hp
      exact ⟨it, none, rfl, h, .inl ⟨rfl, hat⟩⟩
  rcases hgo with ⟨rfl, hat⟩ | ⟨hbeyond, rfl⟩
  · rw [proceed_of_resume strict len hresume]
    obtain ⟨parts, it₂, stop, k, hwalk, hat', hcovers, hk, hends⟩ :=
      hat.walk_stops hne htotal strict (le_refl len)
    exact ⟨parts, it₂, stop, k, hwalk, hat'.rests, hcovers, hk, hends⟩
  · refine ⟨[], it₁, some .endOfBuffer, 0, ?_, hrests, .nil _, Nat.zero_le len, .inr ⟨?_, rfl⟩⟩
    · rw [Iter.proceed, hresume]
    · exact hbeyond.trans_le (Nat.le_add_right _ _)

end Iter

/-- The cursor is at `end()`, or stands on a segment, where its offset says. -/
def Cursor.Settled (ps : List Ptr) (ids : List ℕ) (c : Cursor) : Prop :=
  c.node = none ∨ ∃ (pre : List Ptr) (p : Ptr) (suf : List Ptr) (before : List ℕ) (id : ℕ) (after : List ℕ),
    ps = pre ++ p :: suf ∧ ids = before ++ id :: after ∧ before.length = pre.length ∧ c.node = some id ∧
      c.pOff < p.len ∧ c.off.toNat = (pre.map Ptr.len).sum + c.pOff

namespace CachedList

open Iter

variable {h : Heap} {x : CachedList} {off len : UInt32}

/-- The call, without its check. -/
def traverse (strict : Bool) (h : Heap) (x : CachedList) (off len : UInt32) : Option Traversal :=
  (x.start h off).map fun s ↦
    match s.2 with
    | some e => ⟨[], x.cursorOf s.1, some e⟩
    | none =>
      let r := s.1.proceed strict (x.list.segments h) len.toNat
      ⟨r.1, x.cursorOf r.2.1, r.2.2⟩

/-- `copy(off, len, dest)` to a `std::string`: what has been appended to it. -/
def copyString (h : Heap) (x : CachedList) (off len : UInt32) : Option (Bytes × Traversal) :=
  (x.traverse false h off len).map fun r ↦ (r.parts.flatMap (Part.bytes (x.list.segments h)), r)

theorem visit_of_check (strict : Bool) (hpass : ¬x.list.len < (off + len).toNat) :
    x.visit strict h off len = x.traverse strict h off len :=
  if_neg hpass

/-- Each segment is an element of `_buffers` of its own, and the cursor is settled. -/
structure Firm (h : Heap) (x : CachedList) : Prop where
  proper : x.list.Proper h
  lt : x.list.len < 2 ^ 31
  length : x.nodes.length = x.list.buffers.length
  nodup : x.nodes.Nodup
  settled : x.lastP.Settled x.list.buffers x.nodes

theorem length_flatten_segments {ps : List Ptr} (hps : ∀ p ∈ ps, p.In h h.extent ∧ 0 < p.len) :
    (ps.map (Ptr.bytes h)).flatten.length = (ps.map Ptr.len).sum :=
  BufferList.length_flatMap_bytes hps (tidy_extent h)

theorem idxOf?_append_cons {before : List ℕ} {id : ℕ} (hnotin : id ∉ before) (after : List ℕ) :
    (before ++ id :: after).idxOf? id = some before.length := by
  induction before with
  | nil => rw [List.nil_append, List.idxOf?_cons, beq_self_eq_true, if_pos rfl, List.length_nil]
  | cons a before ih =>
    rw [List.mem_cons, not_or] at hnotin
    have hne : (a == id) = false := beq_eq_false_iff_ne.mpr (Ne.symm hnotin.1)
    rw [List.cons_append, List.idxOf?_cons, hne, if_neg Bool.false_ne_true, ih hnotin.2, Option.map_some,
      List.length_cons]

/-- The cursor refers to a place in the list. -/
theorem Firm.resolve (hx : x.Firm h) :
    ∃ it, x.resolve x.lastP = some it ∧ it.off = x.lastP.off ∧ it.Rests (x.list.segments h) := by
  rcases hx.settled with hnode | ⟨pre, p, suf, before, id, after, hps, hids, hlen, hnode, hpOff, hoff⟩
  · exact ⟨{ off := x.lastP.off, p := none, pOff := x.lastP.pOff }, by rw [CachedList.resolve, hnode], rfl, .inl rfl⟩
  · have hnotin : id ∉ before := by
      have hnodup := hx.nodup
      rw [hids] at hnodup
      exact fun hmem ↦ (List.nodup_append.mp hnodup).2.2 id hmem id List.mem_cons_self rfl
    have hidx : x.nodes.idxOf? id = some pre.length := by
      rw [hids, ← hlen]
      exact idxOf?_append_cons hnotin after
    have hsegment := hx.proper.segment
    rw [hps] at hsegment
    refine ⟨{ off := x.lastP.off, p := some pre.length, pOff := x.lastP.pOff }, ?_, rfl, .inr ⟨rfl, .inr ?_⟩⟩
    · rw [CachedList.resolve, hnode]
      dsimp only
      rw [hidx, Option.map_some]
    · refine ⟨pre.map (Ptr.bytes h), p.bytes h, suf.map (Ptr.bytes h), ?_, ?_, ?_, ?_⟩
      · rw [BufferList.segments, hps, List.map_append, List.map_cons]
      · rw [List.length_map]
      · rw [(hsegment p (by simp)).1.length_bytes (tidy_extent h)]
        exact hpOff
      · rw [length_flatten_segments fun q hq ↦ hsegment q (List.mem_append_left _ hq)]
        exact hoff

/-- The cursor of an iterator at rest is settled. -/
theorem Firm.settles (hx : x.Firm h) {it : Iter} (hit : it.Rests (x.list.segments h)) :
    (x.cursorOf it).Settled x.list.buffers x.nodes := by
  rcases hit with hp | hat
  · exact .inl (by rw [cursorOf, hp, Option.bind_none])
  rcases hat.place with ⟨hp, -⟩ | ⟨before, s, after, hsegs, hp, hpOff, hoff⟩
  · exact .inl (by rw [cursorOf, hp, Option.bind_none])
  · obtain ⟨pre, rest, hps, hpre, hrest⟩ := List.map_eq_append_iff.mp hsegs
    obtain ⟨p, suf, rfl, hpbytes, -⟩ := List.map_eq_cons_iff.mp hrest
    have hsegment := hx.proper.segment
    rw [hps] at hsegment
    have hlen := congrArg List.length hps
    rw [← hx.length, List.length_append, List.length_cons] at hlen
    have hlt : pre.length < x.nodes.length := by omega
    have hbefore : before.length = pre.length := by rw [← hpre, List.length_map]
    refine .inr ⟨pre, p, suf, x.nodes.take pre.length, x.nodes[pre.length], x.nodes.drop (pre.length + 1),
      hps, ?_, ?_, ?_, ?_, ?_⟩
    · rw [List.getElem_cons_drop, List.take_append_drop]
    · rw [List.length_take, Nat.min_eq_left hlt.le]
    · rw [cursorOf, hp, Option.bind_some, hbefore, List.getElem?_eq_getElem hlt]
    · rw [← hpbytes, (hsegment p (by simp)).1.length_bytes (tidy_extent h)] at hpOff
      exact hpOff
    · rw [← hpre, length_flatten_segments fun q hq ↦ hsegment q (List.mem_append_left _ hq)] at hoff
      exact hoff

/-- What a call leaves behind: the cursor is settled, and what has been visited is the part, or a beginning
of it if the list ends before. -/
structure Calm (x : CachedList) (h : Heap) (off len : ℕ) (t : Traversal) : Prop where
  settled : t.lastP.Settled x.list.buffers x.nodes
  visited : ∃ o k, Covers (x.list.segments h) o k t.parts ∧ k ≤ len
  stop : t.stop = none ∨ t.stop = some .endOfBuffer
  whole : off + len ≤ x.list.len → Covers (x.list.segments h) off len t.parts ∧ t.stop = none

/-- **A call** leaves the cursor settled, and visits the part if the list has it. -/
theorem Firm.traverse (hx : x.Firm h) (strict : Bool) (off len : UInt32) :
    ∃ t, x.traverse strict h off len = some t ∧ Calm x h off.toNat len.toNat t := by
  have hne := hx.proper.segments_ne
  have htotal := hx.proper.length_flatten
  have hlt : (x.list.segments h).flatten.length < 2 ^ 31 := htotal ▸ hx.lt
  obtain ⟨it, stop, hstart, hrests, hgo⟩ : ∃ it stop, x.start h off = some (it, stop) ∧
      it.Rests (x.list.segments h) ∧ (stop = none ∧ it.off = off ∨
        (x.list.segments h).flatten.length < off.toNat ∧ stop = some .endOfBuffer) := by
    rw [start]
    by_cases hoff : x.lastP.off ≠ off
    · rw [if_pos hoff]
      obtain ⟨it, stop, hseek, hrests, hgo⟩ := trySeek_rests hne hlt off
      refine ⟨it, stop, by rw [hseek], hrests, hgo.imp_left fun hat ↦ ⟨hat.1, ?_⟩⟩
      exact UInt32.toNat_inj.mp hat.2.off_eq
    · rw [if_neg hoff]
      obtain ⟨it, hresolve, hitOff, hrests⟩ := hx.resolve
      exact ⟨it, none, by rw [hresolve, Option.map_some], hrests,
        .inl ⟨rfl, hitOff.trans (of_not_not hoff)⟩⟩
  rw [CachedList.traverse, hstart, Option.map_some]
  rcases hgo with ⟨rfl, rfl⟩ | ⟨hbeyond, rfl⟩
  · dsimp only
    obtain ⟨parts, it', stop, k, hproceed, hrests', hcovers, hk, hends⟩ :=
      hrests.proceed hne hlt strict len.toNat
    rw [hproceed]
    refine ⟨_, rfl, hx.settles hrests', ⟨_, k, hcovers, hk⟩, hends.imp And.right And.right, fun hle ↦ ?_⟩
    rcases hends with ⟨hall, hstop⟩ | ⟨hbeyond, -⟩
    · exact ⟨hall ▸ hcovers, hstop⟩
    · omega
  · dsimp only
    exact ⟨_, rfl, hx.settles hrests, ⟨0, 0, .nil 0, Nat.zero_le _⟩, .inr rfl, fun hle ↦ by omega⟩

/-- **The checked calls.** -/
theorem Firm.visit (hx : x.Firm h) (strict : Bool) (off len : UInt32) :
    ∃ t, x.visit strict h off len = some t ∧ Calm x h off.toNat len.toNat t := by
  by_cases hcheck : x.list.len < (off + len).toNat
  · refine ⟨_, if_pos hcheck, hx.settled, ⟨0, 0, .nil 0, Nat.zero_le _⟩, .inr rfl, fun hle ↦ ?_⟩
    rw [UInt32.toNat_add, Nat.mod_eq_of_lt (hle.trans_lt hx.proper.lt)] at hcheck
    omega
  · rw [visit_of_check strict hcheck]
    exact hx.traverse strict off len

/-- `last_p = begin()` settles the cursor. -/
theorem Firm.rewind (hx : x.Firm h) : (x.rewind h).Firm h :=
  ⟨hx.proper, hx.lt, hx.length, hx.nodup, hx.settles (ofBegin_rests hx.proper.segments_ne)⟩

/-! ## What the calls deliver

The parts that are visited are those of the bytes asked for, so what is collected or written is the
right text. -/

/-- What the rounds of `copy` append to a list. -/
theorem foldl_appendPart {used : ℕ → ℕ} (htidy : Tidy h used) {ps : List Ptr}
    (hps : ∀ p ∈ ps, p.In h used ∧ 0 < p.len) {o l : ℕ} {parts : List Part}
    (hcovers : Covers (ps.map (Ptr.bytes h)) o l parts) {dest : BufferList} (hdest : dest.Sound h used) :
    ∃ dest', parts.foldl (appendPart ps) (some dest) = some dest' ∧ dest'.Sound h used ∧
      dest'.contents h = dest.contents h ++ ((ps.flatMap (Ptr.bytes h)).drop o).take l ∧
      dest'.appendBuffer = dest.appendBuffer := by
  rw [List.flatMap, ← hcovers.slice_eq]
  induction hcovers generalizing dest with
  | nil o => exact ⟨dest, rfl, hdest, (List.append_nil _).symm, rfl⟩
  | @cons len parts p hseg hoff hpos _ ih =>
    rw [List.length_map] at hseg
    have hget : (ps.map (Ptr.bytes h)).getD p.seg [] = (ps.getD p.seg {}).bytes h :=
      List.getD_map ps {} (Ptr.bytes h)
    obtain ⟨hin, hlen⟩ : (ps.getD p.seg {}).In h used ∧ 0 < (ps.getD p.seg {}).len := by
      apply hps _
      rw [List.getD_eq_getElem _ _ hseg]
      exact List.getElem_mem hseg
    rw [hget, hin.length_bytes htidy] at hoff
    obtain ⟨dest₁, happend, hsound, hcontents, hsame⟩ :=
      hdest.appendSub p.off p.len hin htidy (BufferList.raw_isSome ⟨hin, hlen⟩) hoff
    obtain ⟨dest', hfold, hsound', hcontents', hsame'⟩ := ih hsound
    refine ⟨dest', ?_, hsound', ?_, hsame'.trans hsame⟩
    · rw [List.foldl_cons, appendPart, Option.bind_some, happend]
      exact hfold
    · rw [hcontents', hcontents, List.flatMap_cons, List.append_assoc, Part.slice, hget]

/-- The calls deliver the bytes of the part, and overwrite them. -/
structure Delivers (h : Heap) (x : CachedList) (off len : UInt32) (dest : BufferList) (src : Bytes) :
    Prop where
  copy : ∃ t, x.copy h off len = some (((x.list.contents h).drop off.toNat).take len.toNat, t) ∧ t.stop = none
  copyString : ∃ t, x.copyString h off len =
    some (((x.list.contents h).drop off.toNat).take len.toNat, t) ∧ t.stop = none
  copyTo : ∃ dest' t, x.copyTo h off len dest = some (some dest', t) ∧ t.stop = none ∧
    dest'.contents h = dest.contents h ++ ((x.list.contents h).drop off.toNat).take len.toNat
  copyIn : ∃ t, x.copyIn h off src =
    some (some (h.pokes ((x.list.cells.drop off.toNat).take len.toNat) src), t) ∧ t.stop = none

/-- **Where the cursor is settled** the calls do what they should. -/
theorem Firm.delivers (hx : x.Firm h) {dest : BufferList} (hdest : dest.Proper h) {src : Bytes}
    (hsrc : src.length = len.toNat) (hle : off.toNat + len.toNat ≤ x.list.len) :
    Delivers h x off len dest src := by
  have hbytes {t : Traversal} (hcovers : Covers (x.list.segments h) off.toNat len.toNat t.parts) :
      t.parts.flatMap (Part.bytes (x.list.segments h)) =
        ((x.list.contents h).drop off.toNat).take len.toNat :=
    hcovers.slice_eq
  refine ⟨?_, ?_, ?_, ?_⟩
  · obtain ⟨t, hvisit, hcalm⟩ := hx.visit true off len
    obtain ⟨hcovers, hstop⟩ := hcalm.whole hle
    exact ⟨t, by rw [CachedList.copy, hvisit, Option.map_some, hbytes hcovers], hstop⟩
  · obtain ⟨t, htraverse, hcalm⟩ := hx.traverse false off len
    obtain ⟨hcovers, hstop⟩ := hcalm.whole hle
    exact ⟨t, by rw [CachedList.copyString, htraverse, Option.map_some, hbytes hcovers], hstop⟩
  · obtain ⟨t, hvisit, hcalm⟩ := hx.visit false off len
    obtain ⟨hcovers, hstop⟩ := hcalm.whole hle
    obtain ⟨dest', hfold, -, hcontents, -⟩ :=
      foldl_appendPart (tidy_extent h) hx.proper.segment hcovers hdest.sound
    exact ⟨dest', t, by rw [CachedList.copyTo, hvisit, Option.map_some, hfold], hstop, hcontents⟩
  · obtain ⟨t, hvisit, hcalm⟩ := hx.visit false off len
    obtain ⟨hcovers, hstop⟩ := hcalm.whole hle
    have hlen : UInt32.ofNat src.length = len := by rw [hsrc, UInt32.ofNat_toNat]
    have hfold := BufferList.foldl_writePart hx.proper.segment (hx.proper.covers_cells hcovers)
      (show len.toNat ≤ src.length from hsrc.ge)
    rw [← hsrc, List.take_length, hsrc] at hfold
    exact ⟨t, by rw [CachedList.copyIn, hlen, hvisit, Option.map_some, hfold]; rfl, hstop⟩

end CachedList

end AsyncMessenger
