import EthercatMaster.Soem.Dc
import Mathlib.Tactic.IntervalCases

/-!
# One slave of `ec_configdc`

What `ec_configdc` does to the slaves and its variables when it comes to a slave: with a clock, the
slave is entered and its delay computed (`Measured`); without one, at the end of a branch a port of
the slave above may be consumed (`Passed`).  Of the other slaves only the links of the list and the
ports that are left change.
-/

namespace EthercatMaster

variable {s : DcSlave}

/-- What is not changed of a slave while others are looked at. -/
def DcSlave.core (s : DcSlave) : DcSlave :=
  { s with consumedports := 0, parentport := 0, DCnext := 0, DCprevious := 0 }

/-- What `ec_configdc` uses of a slave that is not changed. -/
structure Keeps (s s' : DcSlave) : Prop where
  hasdc : s'.hasdc = s.hasdc
  topology : s'.topology = s.topology
  activeports : s'.activeports = s.activeports
  parent : s'.parent = s.parent
  DCrt : s'.DCrt = s.DCrt
  entryport : s'.entryport = s.entryport
  pdelay : s'.pdelay = s.pdelay

theorem Keeps.refl (s : DcSlave) :
  Keeps s s
  := ⟨rfl, rfl, rfl, rfl, rfl, rfl, rfl⟩

theorem Keeps.of_core {s s' : DcSlave} (h : s'.core = s.core) :
  Keeps s s'
  where
  hasdc := (congrArg DcSlave.hasdc h : s'.core.hasdc = s.core.hasdc)
  topology := (congrArg DcSlave.topology h : s'.core.topology = s.core.topology)
  activeports := (congrArg DcSlave.activeports h : s'.core.activeports = s.core.activeports)
  parent := (congrArg DcSlave.parent h : s'.core.parent = s.core.parent)
  DCrt := (congrArg DcSlave.DCrt h : s'.core.DCrt = s.core.DCrt)
  entryport := (congrArg DcSlave.entryport h : s'.core.entryport = s.core.entryport)
  pdelay := (congrArg DcSlave.pdelay h : s'.core.pdelay = s.core.pdelay)

namespace DcContext

variable {c : DcContext} {bus : DcBus} {mastertime : UInt64} {i k : ℕ} {s : DcSlave}

theorem set_self (i : ℕ) (s : DcSlave) (c : DcContext) :
  (c.set i s).slave i = s
  := by
  rw [set]
  apply Function.update_self

theorem set_of_ne (h : k ≠ i) (s : DcSlave) (c : DcContext) :
  (c.set i s).slave k = c.slave k
  := by
  rw [set]
  apply Function.update_of_ne h

/-- Setting a slave keeps what it keeps of this slave. -/
theorem apply_set {γ : Type} (g : DcSlave → γ) (h : k = i → g s = g (c.slave i)) :
  g ((c.set i s).slave k) = g (c.slave k)
  := by
  by_cases hk : k = i
  · rw [hk, set_self, h hk]
  · rw [set_of_ne hk]

theorem link_apply {γ : Type} (g : DcSlave → γ) (hk : 0 < k)
    (hg : ∀ s m n, g { s with DCnext := m, DCprevious := n } = g s) :
  g ((c.link i).slave k) = g (c.slave k)
  := by
  have hnext : ∀ s : DcSlave, ∀ m, g { s with DCnext := m } = g s := fun s m => hg s m _
  have hprevious : ∀ s : DcSlave, ∀ n, g { s with DCprevious := n } = g s := fun s n => hg s _ n
  rw [link]
  split
  · change g (((c.set 0 _).set i _).slave k) = _
    rw [apply_set g (fun _ => hprevious _ _), set_of_ne hk.ne']
  · change g (((c.set _ _).set i _).slave k) = _
    rw [apply_set g (fun _ => hprevious _ _), apply_set g (fun _ => hnext _ _)]

theorem link_hasdc (hi : 0 < i) :
  ((c.link i).slave 0).hasdc = true
  := by
  rw [link]
  split
  · change (((c.set 0 _).set i _).slave 0).hasdc = _
    rw [set_of_ne hi.ne, set_self]
  case isFalse h =>
    rw [Bool.not_eq_true', Bool.not_eq_false] at h
    change (((c.set _ _).set i _).slave 0).hasdc = _
    rw [set_of_ne hi.ne]
    refine (apply_set DcSlave.hasdc ?_).trans h
    intro _
    rfl

/-- The search upwards depends on the parents and on who has a clock. -/
theorem dcParent_congr {slave slave' : ℕ → DcSlave}
    (h : ∀ k, 0 < k → (slave' k).hasdc = (slave k).hasdc ∧ (slave' k).parent = (slave k).parent)
    {fuel child : ℕ} (hchild : 0 < child) :
  dcParent slave' fuel child = dcParent slave fuel child
  := by
  induction fuel generalizing child with
  | zero => rw [dcParent, dcParent, (h child hchild).2]
  | succ fuel ih =>
      rw [dcParent, dcParent, (h child hchild).2]
      by_cases hparent : (slave child).parent = 0
      · rw [if_pos (Or.inl hparent), if_pos (Or.inl hparent)]
      · have hpos := Nat.pos_of_ne_zero hparent
        simp only [(h _ hpos).1]
        rw [ih hpos]

/-- What is known when a slave with a clock has been entered. -/
structure Entered (bus : DcBus) (c c' : DcContext) (i : ℕ) : Prop where
  others : ∀ k, 0 < k → k ≠ i → (c'.slave k).core = (c.slave k).core
    ∧ (c'.slave k).consumedports = (c.slave k).consumedports
  hasdc : (c'.slave i).hasdc = (c.slave i).hasdc
  topology : (c'.slave i).topology = (c.slave i).topology
  activeports : (c'.slave i).activeports = (c.slave i).activeports
  parent : (c'.slave i).parent = (c.slave i).parent
  pdelay : (c'.slave i).pdelay = (c.slave i).pdelay
  times : ∀ port t, port < 4 → bus.dcTime i port = some t → (c'.slave i).DCrt port = t
  entryport : (c'.slave i).entryport = entryPort (c.slave i).activeports (c'.slave i).DCrt
  left : (c'.slave i).consumedports
    = (c.slave i).consumedports &&& ~~~ portBit (c'.slave i).entryport
  parenthold : c'.parenthold = 0
  prevDCslave : c'.prevDCslave = i
  found : (c'.slave 0).hasdc = true

theorem entered (bus : DcBus) (mastertime : UInt64) (hi : 0 < i) :
  Entered bus c (((c.link i).latch bus mastertime i).enter i) i
  := by
  have hlink {γ : Type} (g : DcSlave → γ)
      (hg : ∀ s m n, g { s with DCnext := m, DCprevious := n } = g s) :
      g ((c.link i).slave i) = g (c.slave i) := link_apply g hi hg
  refine ⟨?_, ?_, ?_, ?_, ?_, ?_, ?_, ?_, ?_, ?_, ?_, ?_⟩
  · intro k hk hki
    simp only [enter, latch, set_of_ne hki]
    constructor
    · apply link_apply DcSlave.core hk
      intro s m n
      rfl
    · apply link_apply DcSlave.consumedports hk
      intro s m n
      rfl
  · simp only [enter, latch, set_self]
    apply hlink
    intro s m n
    rfl
  · simp only [enter, latch, set_self]
    apply hlink
    intro s m n
    rfl
  · simp only [enter, latch, set_self]
    apply hlink
    intro s m n
    rfl
  · simp only [enter, latch, set_self]
    apply hlink
    intro s m n
    rfl
  · simp only [enter, latch, set_self]
    apply hlink
    intro s m n
    rfl
  · intro port t hport ht
    simp only [enter, latch, set_self]
    interval_cases port
    all_goals simp only [ht, Option.getD_some]
  · simp only [enter, latch, set_self]
    rw [hlink DcSlave.activeports (fun _ _ _ => rfl)]
  · simp only [enter, latch, set_self]
    rw [hlink DcSlave.consumedports (fun _ _ _ => rfl)]
  · rfl
  · rfl
  · simp only [enter, latch, set_of_ne hi.ne]
    apply link_hasdc hi

/-- What the delay of a slave with a clock above changes. -/
structure Propagated (c c' : DcContext) (i parent child : ℕ) : Prop where
  others : ∀ k, k ≠ i → (c'.slave k).core = (c.slave k).core
  kept : ∀ k, k ≠ parent → (c'.slave k).consumedports = (c.slave k).consumedports
  own : (c'.slave i).core = ({ c.slave i with pdelay := (c'.slave i).pdelay } : DcSlave).core
  consumed : (c'.slave parent).consumedports
    = (ecxParentport (c.slave parent).consumedports).2
  pdelay : (c.slave parent).topology ≠ 1 → (c'.slave i).pdelay = delay (c.slave i) (c.slave parent)
    (ecxParentport (c.slave parent).consumedports).1 (1 < child - parent)
  parenthold : c'.parenthold = c.parenthold
  prevDCslave : c'.prevDCslave = c.prevDCslave

theorem propagated {parent : ℕ} (child : ℕ) (hne : parent ≠ i) :
  Propagated c (c.propagate i parent child) i parent child
  := by
  refine ⟨?_, ?_, ?_, ?_, ?_, rfl, rfl⟩
  · intro k hk
    simp only [propagate, set_of_ne hk]
    apply apply_set DcSlave.core
    intro _
    rfl
  · intro k hk
    simp only [propagate]
    refine (apply_set DcSlave.consumedports ?_).trans ?_
    · intro _
      rfl
    · rw [set_of_ne hk]
  · simp only [propagate, set_self, set_of_ne hne.symm]
    rfl
  · simp only [propagate, set_of_ne hne, set_self]
  · intro htopology
    simp only [propagate, set_self, set_of_ne hne.symm, if_neg htopology]
    rfl

theorem delay_congr {s' parent parent' : DcSlave} (h : Keeps { s with pdelay := s'.pdelay } s')
    (hparent : Keeps parent parent') (port : ℕ) (notFirst : Bool) :
  delay s' parent' port notFirst = delay s parent port notFirst
  := by
  rw [delay, delay, h.topology, h.activeports, h.DCrt, h.entryport, hparent.activeports,
    hparent.DCrt, hparent.entryport, hparent.pdelay]

/-- What a slave with a clock becomes, if the search upwards ends at `hang`. -/
structure Measured (bus : DcBus) (c c' : DcContext) (i : ℕ) (hang : ℕ × ℕ) : Prop where
  others : ∀ k, 0 < k → k ≠ i → (c'.slave k).core = (c.slave k).core
  kept : ∀ k, 0 < k → k ≠ i → k ≠ hang.1 →
    (c'.slave k).consumedports = (c.slave k).consumedports
  hasdc : (c'.slave i).hasdc = true
  topology : (c'.slave i).topology = (c.slave i).topology
  activeports : (c'.slave i).activeports = (c.slave i).activeports
  parent : (c'.slave i).parent = (c.slave i).parent
  times : ∀ port t, port < 4 → bus.dcTime i port = some t → (c'.slave i).DCrt port = t
  entryport : (c'.slave i).entryport = entryPort (c.slave i).activeports (c'.slave i).DCrt
  left : (c'.slave i).consumedports
    = (c.slave i).activeports &&& ~~~ portBit (c'.slave i).entryport
  parenthold : c'.parenthold = 0
  prevDCslave : c'.prevDCslave = i
  first : hang.1 = 0 → (c'.slave i).pdelay = (c.slave i).pdelay
  consumed : 0 < hang.1 → (c'.slave hang.1).consumedports
    = (ecxParentport (c.slave hang.1).consumedports).2
  pdelay : 0 < hang.1 → (c.slave hang.1).topology ≠ 1 → (c'.slave i).pdelay
    = delay (c'.slave i) (c.slave hang.1) (ecxParentport (c.slave hang.1).consumedports).1
      (1 < hang.2 - hang.1)

theorem measured (bus : DcBus) (mastertime : UInt64) (hi : 0 < i)
    (hdc : (c.slave i).hasdc = true) {hang : ℕ × ℕ} (hhang : dcParent c.slave i i = hang)
    (hne : hang.1 ≠ i) :
  Measured bus c (c.configure bus mastertime i) i hang
  := by
  obtain ⟨parent, child⟩ := hang
  dsimp only at hne
  rw [configure]
  dsimp only
  rw [set_self, if_pos hdc]
  have hset : ∀ k, k ≠ i → (c.set i { c.slave i with
      consumedports := (c.slave i).activeports }).slave k = c.slave k :=
    fun k hk => set_of_ne hk _ c
  generalize hc₁ : c.set i { c.slave i with consumedports := (c.slave i).activeports } = c₁
  have hself : c₁.slave i = { c.slave i with consumedports := (c.slave i).activeports } := by
    rw [← hc₁, set_self]
  rw [hc₁] at hset
  have h := entered (c := c₁) bus mastertime hi
  rw [measure]
  generalize ((c₁.link i).latch bus mastertime i).enter i = c₂ at h
  have hsearch : dcParent c₂.slave i i = (parent, child) := by
    rw [← hhang]
    apply dcParent_congr _ hi
    intro k hk
    by_cases hki : k = i
    · rw [hki, h.hasdc, h.parent, hself]
      exact ⟨rfl, rfl⟩
    · have hkeeps := Keeps.of_core (h.others k hk hki).1
      rw [hset k hki] at hkeeps
      exact ⟨hkeeps.hasdc, hkeeps.parent⟩
  rw [hsearch]
  dsimp only
  split
  case isFalse hzero =>
    refine ⟨?_, ?_, ?_, ?_, ?_, ?_, ?_, ?_, ?_, ?_, ?_, ?_, ?_, ?_⟩
    · intro k hk hki
      rw [(h.others k hk hki).1, hset k hki]
    · intro k hk hki _
      rw [(h.others k hk hki).2, hset k hki]
    · rw [h.hasdc, hself, hdc]
    · rw [h.topology, hself]
    · rw [h.activeports, hself]
    · rw [h.parent, hself]
    · apply h.times
    · rw [h.entryport, hself]
    · rw [h.left, hself]
    · apply h.parenthold
    · apply h.prevDCslave
    · intro _
      rw [h.pdelay, hself]
    · intro hpos
      exact absurd hpos hzero
    · intro hpos
      exact absurd hpos hzero
  case isTrue hpos =>
    have hp := propagated (c := c₂) child hne
    generalize c₂.propagate i parent child = c₃ at hp ⊢
    have hown := Keeps.of_core hp.own
    have hparent := Keeps.of_core (h.others parent hpos hne).1
    rw [hset parent hne] at hparent
    have hconsumed : (c₂.slave parent).consumedports = (c.slave parent).consumedports := by
      rw [(h.others parent hpos hne).2, hset parent hne]
    refine ⟨?_, ?_, ?_, ?_, ?_, ?_, ?_, ?_, ?_, ?_, ?_, ?_, ?_, ?_⟩
    · intro k hk hki
      rw [hp.others k hki, (h.others k hk hki).1, hset k hki]
    · intro k hk hki hkp
      rw [hp.kept k hkp, (h.others k hk hki).2, hset k hki]
    · rw [hown.hasdc, h.hasdc, hself, hdc]
    · rw [hown.topology, h.topology, hself]
    · rw [hown.activeports, h.activeports, hself]
    · rw [hown.parent, h.parent, hself]
    · intro port t hport ht
      rw [hown.DCrt, h.times port t hport ht]
    · rw [hown.entryport, hown.DCrt, h.entryport, hself]
    · rw [hp.kept i (Ne.symm hne), hown.entryport, h.left, hself]
    · rw [hp.parenthold, h.parenthold]
    · rw [hp.prevDCslave, h.prevDCslave]
    · intro hzero
      exact absurd hpos (Nat.not_lt.mpr hzero.le)
    · intro _
      rw [hp.consumed, hconsumed]
    · intro _ htopology
      rw [← hparent.topology] at htopology
      have hsame : Keeps { c₃.slave i with pdelay := (c₃.slave i).pdelay } (c₃.slave i) :=
        Keeps.refl _
      rw [hp.pdelay htopology, hconsumed, ← delay_congr hown (Keeps.refl (c₂.slave parent)),
        delay_congr hsame hparent]

/-- What a slave without a clock changes: if it is the end of a branch that is held, a port of the
slave above is consumed. -/
structure Passed (c c' : DcContext) (i hold : ℕ) : Prop where
  others : ∀ k, k ≠ i → (c'.slave k).core = (c.slave k).core
  kept : ∀ k, k ≠ i → k ≠ hold → (c'.slave k).consumedports = (c.slave k).consumedports
  hasdc : (c'.slave i).hasdc = false
  topology : (c'.slave i).topology = (c.slave i).topology
  activeports : (c'.slave i).activeports = (c.slave i).activeports
  parent : (c'.slave i).parent = (c.slave i).parent
  prevDCslave : c'.prevDCslave = c.prevDCslave
  ended : (c.slave i).topology = 1 → c'.parenthold = 0 ∧ (0 < hold →
    (c'.slave hold).consumedports = (ecxParentport (c.slave hold).consumedports).2)
  goesOn : (c.slave i).topology ≠ 1 → c'.parenthold = hold
    ∧ ∀ k, k ≠ i → (c'.slave k).consumedports = (c.slave k).consumedports

theorem passed (bus : DcBus) (mastertime : UInt64) (hdc : (c.slave i).hasdc = false)
    (hparent : (c.slave i).parent ≠ i) (hne : c.held i ≠ i) :
  Passed c (c.configure bus mastertime i) i (c.held i)
  := by
  rw [configure]
  dsimp only
  rw [set_self, hdc, if_neg Bool.false_ne_true, pass]
  generalize hc₀ : c.set i _ = c₀
  generalize hc₁ : c₀.set i _ = c₁
  have hself : (c₁.slave i).hasdc = false ∧ (c₁.slave i).topology = (c.slave i).topology
      ∧ (c₁.slave i).activeports = (c.slave i).activeports
      ∧ (c₁.slave i).parent = (c.slave i).parent := by
    rw [← hc₁, ← hc₀, set_self, set_self]
    exact ⟨rfl, rfl, rfl, rfl⟩
  have hother : ∀ k, k ≠ i → c₁.slave k = c.slave k := by
    intro k hk
    rw [← hc₁, ← hc₀, set_of_ne hk, set_of_ne hk]
  have hprev : c₁.prevDCslave = c.prevDCslave := by
    rw [← hc₁, ← hc₀]
    rfl
  have hheld : c₁.held i = c.held i := by
    rw [held, held, hself.2.2.2, hother _ hparent, ← hc₁, ← hc₀]
    rfl
  dsimp only
  rw [hheld, hself.2.1]
  split
  case isTrue hend =>
    refine ⟨?_, ?_, ?_, ?_, ?_, ?_, hprev, ?_, ?_⟩
    · intro k hk
      refine (apply_set DcSlave.core ?_).trans ?_
      · intro _
        rfl
      · rw [hother k hk]
    · intro k hk hkh
      change ((c₁.set _ _).slave k).consumedports = _
      rw [set_of_ne hkh, hother k hk]
    · change ((c₁.set _ _).slave i).hasdc = _
      rw [set_of_ne hne.symm, hself.1]
    · change ((c₁.set _ _).slave i).topology = _
      rw [set_of_ne hne.symm, hself.2.1]
    · change ((c₁.set _ _).slave i).activeports = _
      rw [set_of_ne hne.symm, hself.2.2.1]
    · change ((c₁.set _ _).slave i).parent = _
      rw [set_of_ne hne.symm, hself.2.2.2]
    · intro _
      refine ⟨rfl, ?_⟩
      intro _
      change ((c₁.set _ _).slave _).consumedports = _
      rw [set_self, hother _ hne]
    · intro hgoes
      exact absurd hend.2 hgoes
  case isFalse hgoes =>
    have hkeep : ∀ k, k ≠ i → (c₁.slave k).consumedports = (c.slave k).consumedports := by
      intro k hk
      rw [hother k hk]
    refine ⟨?_, ?_, hself.1, hself.2.1, hself.2.2.1, hself.2.2.2, hprev, ?_, ?_⟩
    · intro k hk
      change (c₁.slave k).core = _
      rw [hother k hk]
    · intro k hk _
      apply hkeep k hk
    · intro hend
      have hzero : c.held i = 0 := by
        by_contra hne0
        apply hgoes ⟨hne0, hend⟩
      refine ⟨hzero, ?_⟩
      intro hpos
      omega
    · intro _
      exact ⟨rfl, hkeep⟩

end DcContext

end EthercatMaster
