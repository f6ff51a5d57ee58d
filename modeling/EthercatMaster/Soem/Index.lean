import EthercatMaster.Library.Machine
import EthercatMaster.Library.Past
import EthercatMaster.Soem.Receive

/-!
# Indices

An index of a frame is handed out by `ecx_getindex` and belongs to the caller until it sets the
state of its buffer to empty again.  Nothing records the owner; the states of the buffers do, if
nobody else sends on an index or releases it.
-/

namespace EthercatMaster

/-! ### The search -/

/-- The indices that are tried go round, without 0. -/
theorem iterate_nextIndex {idx : ℕ} (hpos : 0 < idx) (hlt : idx < ecMaxbuf) (m : ℕ) :
  nextIndex^[m] idx = (idx - 1 + m) % 15 + 1
  := by
  have hmax : ecMaxbuf = 16 := rfl
  induction m with
  | zero =>
      rw [Function.iterate_zero_apply]
      omega
  | succ m ih =>
      rw [Function.iterate_succ_apply', ih, nextIndex]
      split
      · omega
      · omega

/-- All indices are tried. -/
theorem exists_iterate_nextIndex {idx k : ℕ} (hpos : 0 < idx) (hlt : idx < ecMaxbuf)
    (hpos' : 0 < k) (hlt' : k < ecMaxbuf) :
  ∃ m < ecMaxbuf, nextIndex^[m] idx = k
  := by
  have hmax : ecMaxbuf = 16 := rfl
  refine ⟨(k + 15 - idx) % 15, by omega, ?_⟩
  rw [iterate_nextIndex hpos hlt]
  omega

theorem searchIndex_eq_some {rxbufstat : ℕ → BufStat} {rounds idx found : ℕ}
    (h : searchIndex rxbufstat rounds idx = some found) :
  ∃ m, nextIndex^[m] idx = found
  := by
  induction rounds generalizing idx with
  | zero => cases h
  | succ rounds ih =>
      rw [searchIndex] at h
      split at h
      · cases h
        exact ⟨0, rfl⟩
      · obtain ⟨m, hm⟩ := ih h
        exact ⟨m + 1, hm⟩

theorem searchIndex_eq_none {rxbufstat : ℕ → BufStat} {rounds idx : ℕ}
    (h : searchIndex rxbufstat rounds idx = none) :
  ∀ m < rounds, rxbufstat (nextIndex^[m] idx) ≠ .empty
  := by
  induction rounds generalizing idx with
  | zero =>
      intro m hm
      omega
  | succ rounds ih =>
      rw [searchIndex] at h
      split at h
      · cases h
      · rename_i hne
        intro m hm
        cases m with
        | zero => apply hne
        | succ m =>
            rw [Function.iterate_succ_apply]
            apply ih h m
            omega

/-- `ecx_getindex` reserves a free index, and returns 0 if there is none. -/
theorem ecxGetindex_spec (p : Port) :
  (0 < (ecxGetindex p).1 ∧ (ecxGetindex p).1 < ecMaxbuf
      ∧ p.rxbufstat (ecxGetindex p).1 = .empty
      ∧ (ecxGetindex p).2.rxbufstat
        = Function.update p.rxbufstat (ecxGetindex p).1 .alloc)
    ∨ (ecxGetindex p = (0, p)
      ∧ ∀ k, 0 < k → k < ecMaxbuf → p.rxbufstat k ≠ .empty)
  := by
  obtain ⟨hpos, hlt⟩ := nextIndex_mem p.lastidx
  unfold ecxGetindex
  cases hsearch : searchIndex p.rxbufstat ecMaxbuf (nextIndex p.lastidx) with
  | none =>
      right
      use rfl
      intro k hkpos hklt
      obtain ⟨m, hm, rfl⟩ := exists_iterate_nextIndex hpos hlt hkpos hklt
      apply searchIndex_eq_none hsearch m hm
  | some found =>
      left
      have hmax : ecMaxbuf = 16 := rfl
      obtain ⟨m, hm⟩ := searchIndex_eq_some hsearch
      rw [iterate_nextIndex hpos hlt] at hm
      refine ⟨?_, ?_, searchIndex_empty hsearch, rfl⟩
      · dsimp only
        omega
      · dsimp only
        omega

/-! ### Calls -/

/-- A call for an index, with what the network does meanwhile. -/
inductive IndexCall where
  | getindex
  | outframe (idx : ℕ) (sendOk : Bool)
  | waitinframe (idx : ℕ) (wait : Wait)
  | release (idx : ℕ)

namespace Index

/-- The port after a call.  An index is released by `ecx_setbufstat` with `EC_BUF_EMPTY`. -/
def step (p : Port) : IndexCall → Port
  | .getindex => (ecxGetindex p).2
  | .outframe idx sendOk => (ecxOutframe idx sendOk p).2
  | .waitinframe idx wait => (p.wait idx wait).2
  | .release idx => ecxSetbufstat idx .empty p

/-- The port from a state on. -/
def machine (p : Port) : Machine Port IndexCall :=
  ⟨p, step⟩

variable (p : Port) (es : List IndexCall)

/-- The result of the `ecx_getindex` at a position. -/
def result (i : ℕ) : ℕ :=
  (ecxGetindex ((machine p).before es i)).1

/-- The call at a position hands out an index. -/
def HandsOut (k i : ℕ) : Prop :=
  0 < k ∧ es[i]? = some .getindex ∧ result p es i = k

/-- The call at a position does not release an index. -/
def Keeps (k i : ℕ) : Prop :=
  es[i]? ≠ some (.release k)

/-- Before a position, an index is held: it has been handed out and not been released since. -/
def Held (i k : ℕ) : Prop :=
  Since (Keeps es k) (HandsOut p es k) i

/-- Nobody but the holder of an index sends on it or releases it. -/
structure Owners : Prop where
  outframe : ∀ {i idx sendOk}, es[i]? = some (.outframe idx sendOk) → Held p es i idx
  release : ∀ {i idx}, es[i]? = some (.release idx) → Held p es i idx

/-- The states of the buffers tell which indices are held. -/
def Recorded (i : ℕ) : Prop :=
  ∀ k, 0 < k → k < ecMaxbuf → (((machine p).before es i).rxbufstat k = .empty ↔ ¬ Held p es i k)

variable {p es} {i k : ℕ}

/-- Frames that are received leave free buffers free, and the others not. -/
theorem rxbufstat_wait (p : Port) (idx : ℕ) (wait : Wait) (k : ℕ) :
  (p.wait idx wait).2.rxbufstat k = .empty ↔ p.rxbufstat k = .empty
  := by
  obtain ⟨rxQueue, harrive⟩ := p.arrive_eq wait.arrivals
  obtain ⟨-, ⟨-, hsame⟩ | ⟨frame, idx', -, haccepts, -, hrcvd⟩⟩ := p.wait_step idx wait
  · rw [hsame]
  · rw [hrcvd]
    rcases eq_or_ne k idx' with rfl | hne
    · have hwaits := haccepts.waits
      rw [harrive] at hwaits
      rw [Function.update_self]
      apply iff_of_false
      · rintro ⟨⟩
      · rcases hwaits with hwaits | hwaits
        · rw [hwaits]
          rintro ⟨⟩
        · rw [hwaits]
          rintro ⟨⟩
    · rw [Function.update_of_ne hne]

/-- A buffer is free after a call if it has been released, or was free and has not been handed out,
as long as nobody sends on a free one. -/
theorem step_empty_iff {p : Port} {e : IndexCall} {k : ℕ} (hpos : 0 < k)
    (hsends : ∀ sendOk, e = .outframe k sendOk → p.rxbufstat k ≠ .empty) :
  (step p e).rxbufstat k = .empty
    ↔ e = .release k ∨ (p.rxbufstat k = .empty ∧ ¬ (e = .getindex ∧ (ecxGetindex p).1 = k))
  := by
  cases e with
  | getindex =>
      rw [step, or_iff_right (by rintro ⟨⟩), and_iff_right rfl]
      rcases ecxGetindex_spec p with ⟨-, -, -, hstat⟩ | ⟨hnone, -⟩
      · rw [hstat]
        rcases eq_or_ne k (ecxGetindex p).1 with hk | hne
        · rw [hk, Function.update_self]
          apply iff_of_false
          · rintro ⟨⟩
          · rintro ⟨-, hne⟩
            apply hne rfl
        · rw [Function.update_of_ne hne, and_iff_left hne.symm]
      · rw [hnone, and_iff_left hpos.ne]
  | outframe idx sendOk =>
      obtain ⟨txbuf, houtframe⟩ := ecxOutframe_eq idx p
      rw [step, houtframe, or_iff_right (by rintro ⟨⟩), and_iff_left (by rintro ⟨⟨⟩, -⟩)]
      dsimp only
      rcases eq_or_ne k idx with rfl | hne
      · rw [Function.update_self]
        apply iff_of_false
        · rintro ⟨⟩
        · apply hsends sendOk rfl
      · rw [Function.update_of_ne hne]
  | waitinframe idx wait =>
      rw [step, rxbufstat_wait, or_iff_right (by rintro ⟨⟩), and_iff_left (by rintro ⟨⟨⟩, -⟩)]
  | release idx =>
      rw [step, ecxSetbufstat_rxbufstat, and_iff_left (by rintro ⟨⟨⟩, -⟩)]
      rcases eq_or_ne k idx with rfl | hne
      · rw [Function.update_self]
        apply iff_of_true rfl (.inl rfl)
      · rw [Function.update_of_ne hne, or_iff_right]
        rintro ⟨⟩
        apply hne rfl

/-- A call keeps the record. -/
theorem Recorded.succ (h : Recorded p es i) (howners : Owners p es) :
  Recorded p es (i + 1)
  := by
  intro k hpos hlt
  have hk := h k hpos hlt
  cases he : es[i]? with
  | none =>
      rw [Machine.before_succ_of_none (machine p) he, hk, Held, Held, Since.same]
      · rw [Keeps, he]
        rintro ⟨⟩
      · rw [HandsOut, he]
        rintro ⟨-, ⟨⟩, -⟩
  | some e =>
      have hsends : ∀ sendOk, e = .outframe k sendOk →
          ((machine p).before es i).rxbufstat k ≠ .empty := by
        rintro sendOk rfl
        rw [Ne, hk, not_not]
        apply howners.outframe he
      have hkeeps : Keeps es k i ↔ e ≠ .release k := by
        rw [Keeps, he, Ne, Option.some.injEq]
      have hhands : HandsOut p es k i
          ↔ e = .getindex ∧ (ecxGetindex ((machine p).before es i)).1 = k := by
        rw [HandsOut, he, Option.some.injEq, and_iff_right hpos]
        rfl
      have hdiffer : e = .release k → e ≠ .getindex := by
        rintro rfl ⟨⟩
      rw [Machine.before_succ (machine p) he, Held, Since.succ, hkeeps, hhands, ← Held]
      rw [show (machine p).step = step from rfl, step_empty_iff hpos hsends, hk]
      tauto

/-- From empty buffers on, their states tell which indices are held. -/
theorem recorded (hempty : ∀ k, 0 < k → k < ecMaxbuf → p.rxbufstat k = .empty)
    (howners : Owners p es) (i : ℕ) :
  Recorded p es i
  := by
  induction i with
  | zero =>
      intro k hpos hlt
      apply iff_of_true (hempty k hpos hlt) Since.zero
  | succ i ih => apply ih.succ howners

/-- An index that is handed out is free, and is not handed out again before it is released; none
is handed out exactly if all are held; and neither a call that hands out an index nor the frames
that are received touch the others. -/
theorem getindex_owned (hempty : ∀ k, 0 < k → k < ecMaxbuf → p.rxbufstat k = .empty)
    (howners : Owners p es) (i : ℕ) :
  Recorded p es i
    ∧ (es[i]? = some .getindex →
      (result p es i = 0 ↔ ∀ k, 0 < k → k < ecMaxbuf → Held p es i k)
        ∧ (result p es i ≠ 0 → 1 ≤ result p es i ∧ result p es i ≤ 15
          ∧ ((machine p).before es i).rxbufstat (result p es i) = .empty
          ∧ ¬ Held p es i (result p es i)
          ∧ ∀ j < i, HandsOut p es (result p es i) j →
            ∃ m, j < m ∧ m < i ∧ es[m]? = some (.release (result p es i)))
        ∧ (∀ k, k ≠ result p es i ∨ result p es i = 0 →
          ((machine p).before es (i + 1)).rxbufstat k = ((machine p).before es i).rxbufstat k))
    ∧ (∀ idx wait, es[i]? = some (.waitinframe idx wait) →
      ∀ k, ((machine p).before es (i + 1)).rxbufstat k = .empty
        ↔ ((machine p).before es i).rxbufstat k = .empty)
  := by
  have hrecorded := recorded hempty howners i
  refine ⟨hrecorded, ?_, ?_⟩
  · intro he
    have hmax : ecMaxbuf = 16 := rfl
    rw [Machine.before_succ (machine p) he]
    rw [show (machine p).step = step from rfl, step]
    rcases ecxGetindex_spec ((machine p).before es i) with
      ⟨hpos, hlt, hfree, hstat⟩ | ⟨hnone, hall⟩
    · rw [← result] at hpos hlt hfree hstat
      have hheld := (hrecorded _ hpos hlt).mp hfree
      refine ⟨?_, ?_, ?_⟩
      · apply iff_of_false hpos.ne'
        intro hall
        apply hheld (hall _ hpos hlt)
      · intro _
        refine ⟨hpos, by omega, hfree, hheld, ?_⟩
        intro j hj hhands
        by_contra hno
        apply hheld
        refine ⟨j, hj, hhands, ?_⟩
        intro m hjm hmi hrelease
        apply hno ⟨m, hjm, hmi, hrelease⟩
      · rintro k (hne | hzero)
        · rw [hstat, Function.update_of_ne hne]
        · omega
    · have hzero : result p es i = 0 := by rw [result, hnone]
      refine ⟨?_, ?_, ?_⟩
      · apply iff_of_true hzero
        intro k hpos hlt
        by_contra hheld
        apply hall k hpos hlt ((hrecorded k hpos hlt).mpr hheld)
      · intro hne
        contradiction
      · intro k _
        rw [hnone]
  · intro idx wait he k
    rw [Machine.before_succ (machine p) he]
    apply rxbufstat_wait

/-- An index is handed out, sent on, waited for and released, and the next one is handed out. -/
def calls : List IndexCall :=
  [.getindex, .outframe 1 true, .waitinframe 1 ⟨[], []⟩, .release 1, .getindex]

theorem owners_calls :
  Owners Port.init calls
  := by
  have hhands : HandsOut Port.init calls 1 0 := ⟨by decide, rfl, by decide⟩
  constructor
  case outframe =>
    intro i idx sendOk h
    match i with
    | 0 => cases h
    | 1 =>
        cases h
        refine ⟨0, by decide, hhands, ?_⟩
        intro k hk hlt
        omega
    | 2 => cases h
    | 3 => cases h
    | 4 => cases h
    | i + 5 => cases h
  case release =>
    intro i idx h
    match i with
    | 0 => cases h
    | 1 => cases h
    | 2 => cases h
    | 3 =>
        cases h
        refine ⟨0, by decide, hhands, ?_⟩
        intro k hk hlt
        have hk : k = 1 ∨ k = 2 := by omega
        rcases hk with rfl | rfl
        · rintro ⟨⟩
        · rintro ⟨⟩
    | 4 => cases h
    | i + 5 => cases h

theorem getindex_owned_calls :
  (∀ k, 0 < k → k < ecMaxbuf → Port.init.rxbufstat k = .empty) ∧ Owners Port.init calls
    ∧ Recorded Port.init calls 4 ∧ result Port.init calls 4 = 2
  := by
  have hempty : ∀ k, 0 < k → k < ecMaxbuf → Port.init.rxbufstat k = .empty := fun _ _ _ => rfl
  refine ⟨hempty, owners_calls, ?_, by decide⟩
  apply (getindex_owned hempty owners_calls 4).1

end Index

end EthercatMaster
