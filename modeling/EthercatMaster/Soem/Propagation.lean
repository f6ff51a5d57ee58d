import EthercatMaster.Soem.DcStep

/-!
# Propagation delays

A frame passes the tree of the slaves, and comes back to each port of a slave after it has passed
all that hangs on this port.  From the times latched at the ports, `ec_configdc` finds how long the
frame takes to each slave, if all slaves are entered at port 0 and a cable takes as long in both
directions.  A slave without a clock is like a longer cable.
-/

namespace EthercatMaster

/-! ### The way of the frame -/

/-- A slave of the tree: the port of its parent on which it hangs, the time on the cable, whether it
has a clock, and what the clock shows when the frame arrives. -/
structure Station where
  port : ℕ
  wire : ℕ
  hasdc : Bool
  latch : Int32

/-- The ports on which the trees of a forest hang. -/
def ports : Forest Station → List ℕ
  | .nil => []
  | .cons a _ siblings => a.port :: ports siblings

/-- How long the frame takes through a forest and back. -/
def tour : Forest Station → ℕ
  | .nil => 0
  | .cons a children siblings => 2 * a.wire + tour children + tour siblings

/-- How long it takes until the frame comes back to a port. -/
def back (port : ℕ) : Forest Station → ℕ
  | .nil => 0
  | .cons a children siblings =>
      2 * a.wire + tour children + if a.port = port then 0 else back port siblings

/-- A slave is reached: its number and that of its parent, and the time at which the frame is sent
to it. -/
structure Passage where
  place : Place
  sent : ℕ

/-- The way of the frame. -/
def passing : Visit Station Passage where
  down b a := ⟨Forest.numbering.down b.place a, b.sent + a.wire⟩
  on b a children := ⟨Forest.numbering.on b.place a children, b.sent + 2 * a.wire + tour children⟩

/-- The time at which the frame arrives at the first slave with a clock. -/
def firstArrival (sent : ℕ) : Forest Station → Option ℕ
  | .nil => none
  | .cons a children siblings =>
      if a.hasdc then some (sent + a.wire)
      else (firstArrival (sent + a.wire) children).or
        (firstArrival (sent + 2 * a.wire + tour children) siblings)

/-- The bits of some ports. -/
def portBits (l : List ℕ) : UInt8 :=
  l.foldr (fun port bits => portBit port ||| bits) 0

/-- How a slave is cabled, and what its clock shows.  The frame goes on to its ports 3, 1 and 2 in
this order; a slave without a clock has at most one child.  The times do not leave the range of
`int32`. -/
structure Timed (bus : DcBus) (p : Place) (a : Station) (children : Forest Station) : Prop where
  wired : (ports children).Sublist [3, 1, 2]
  single : a.hasdc = false → children.count ≤ 1
  entered : a.hasdc = true → bus.dcTime p.number 0 = some a.latch
  returned : a.hasdc = true → ∀ port ∈ ports children,
    bus.dcTime p.number port = some (a.latch + Int32.ofNat (back port children))
  timely : a.hasdc = true → a.latch.toInt + tour children < 2 ^ 31

/-- What is known of a slave before it is looked at. -/
structure Surveyed (bus : DcBus) (slave : ℕ → DcSlave) (p : Place) (a : Station)
    (children : Forest Station) : Prop extends Timed bus p a children where
  hasdc : (slave p.number).hasdc = a.hasdc
  topology : (slave p.number).topology = (children.count + 1).toUInt8
  activeports : (slave p.number).activeports = portBits (0 :: ports children)
  parent : (slave p.number).parent = p.parent
  pdelay : (slave p.number).pdelay = 0

/-! ### Ports in order -/

section Ports

variable {l before after : List ℕ} {port : ℕ} {DCrt : ℕ → Int32}

/-- The ports that are left are consumed in their order. -/
theorem ecxParentport_cons (h : (port :: l).Sublist [3, 1, 2]) :
  ecxParentport (portBits (port :: l)) = (port, portBits l)
  := by
  have hall : ∀ m ∈ [3, 1, 2].sublists, m ≠ [] →
      ecxParentport (portBits m) = (m.headD 0, portBits m.tail) := by decide
  apply hall _ (List.mem_sublists.mpr h) (List.cons_ne_nil _ _)

theorem consume_entry (h : l.Sublist [3, 1, 2]) :
  portBits (0 :: l) &&& ~~~ portBit 0 = portBits l
  := by
  have hall : ∀ m ∈ [3, 1, 2].sublists, portBits (0 :: m) &&& ~~~ portBit 0 = portBits m := by
    decide
  apply hall _ (List.mem_sublists.mpr h)

/-- The port before the first one is the last one of all. -/
theorem ecxPrevport_entry (h : l.Sublist [3, 1, 2]) :
  ecxPrevport (portBits (0 :: l)) 0 = l.getLastD 0
  := by
  have hall : ∀ m ∈ [3, 1, 2].sublists, ecxPrevport (portBits (0 :: m)) 0 = m.getLastD 0 := by
    decide
  apply hall _ (List.mem_sublists.mpr h)

/-- The port before another one is the one from which the frame was sent there. -/
theorem ecxPrevport_append (h : (before ++ port :: after).Sublist [3, 1, 2]) :
  ecxPrevport (portBits (0 :: (before ++ port :: after))) port = before.getLastD 0
  := by
  have hall : ∀ m ∈ [3, 1, 2].sublists, ∀ i < m.length,
      ecxPrevport (portBits (0 :: m)) (m.getD i 0) = (m.take i).getLastD 0 := by decide
  have hport := hall _ (List.mem_sublists.mpr h) before.length (by simp)
  have hget : (before ++ port :: after).getD before.length 0 = port := by simp
  rwa [List.take_left, hget] at hport

/-- The frame enters at port 0 if no other port has a lower time. -/
theorem entryPort_eq (h : l.Sublist [3, 1, 2]) (hDCrt : ∀ port ∈ l, ¬ DCrt port < DCrt 0) :
  entryPort (portBits (0 :: l)) DCrt = 0
  := by
  have hall : ∀ m ∈ [3, 1, 2].sublists,
      [0, 3, 1, 2].filter (fun port => portBits (0 :: m) &&& portBit port ≠ 0) = 0 :: m := by
    decide
  rw [entryPort, hall _ (List.mem_sublists.mpr h)]
  dsimp only
  clear h hall
  induction l with
  | nil => rfl
  | cons port l ih =>
      rw [List.foldl_cons, if_neg (hDCrt port List.mem_cons_self)]
      apply ih
      intro p hp
      apply hDCrt p (List.mem_cons_of_mem _ hp)

end Ports

/-! ### Times -/

section Times

variable {x y : ℕ} {t : Int32}

theorem ofNat_half (hx : 2 * x < 2 ^ 31) :
  Int32.ofNat (2 * x) / 2 = Int32.ofNat x
  := by
  apply Int32.toInt.inj
  have hdiv : ((2 * x : ℕ) : ℤ).tdiv (Int32.toInt 2) = x := by
    rw [show Int32.toInt 2 = 2 from rfl, Nat.cast_mul]
    apply Int.mul_tdiv_cancel_left
    decide
  rw [Int32.toInt_div, Int32.toInt_ofNat_of_lt hx, hdiv, Int32.toInt_ofNat_of_lt (by omega)]
  apply Int.bmod_eq_of_le
  · omega
  · omega

theorem ofNat_not_lt (hxy : x ≤ y) (hy : y < 2 ^ 31) :
  ¬ Int32.ofNat y < Int32.ofNat x
  := by
  rw [Int32.lt_iff_toInt_lt, Int32.toInt_ofNat_of_lt hy, Int32.toInt_ofNat_of_lt (by omega)]
  omega

/-- A time does not fall as long as it does not leave its range. -/
theorem add_ofNat_not_lt (h : t.toInt + x < 2 ^ 31) :
  ¬ t + Int32.ofNat x < t
  := by
  have hlow := t.le_toInt
  have hsum : (t + Int32.ofNat x).toInt = t.toInt + x := by
    have hofInt : t + Int32.ofNat x = Int32.ofInt (t.toInt + x) := by
      rw [Int32.ofInt_add, Int32.ofInt_toInt, Int32.ofInt_eq_ofNat]
    rw [hofInt, Int32.toInt_ofInt_of_le (by omega) h]
  rw [Int32.lt_iff_toInt_lt, hsum]
  omega

end Times

/-! ### One delay -/

/-- What is known of the slave with a clock above a branch: the frame is sent into the branch at
some time from the port before, comes back to the port of the branch after a total, and the delay of
the slave is the time at which the frame arrived there, from some reference on. -/
structure Above (s : DcSlave) (reference : Int32) (port arrived sent total : ℕ) : Prop where
  entry : s.entryport = 0
  pdelay : s.pdelay = Int32.ofNat arrived - reference
  le : arrived ≤ sent
  sentAt : s.DCrt (ecxPrevport s.activeports port)
    = s.DCrt 0 + (Int32.ofNat sent - Int32.ofNat arrived)
  backAt : s.DCrt port = s.DCrt (ecxPrevport s.activeports port) + Int32.ofNat total
  range : sent - arrived < 2 ^ 31
  totalRange : total < 2 ^ 31

/-- What is known of a slave when its delay is computed: it is entered at port 0, and the frame
comes back to its last port after it has passed all below. -/
structure Below (s : DcSlave) (children : Forest Station) : Prop where
  entry : s.entryport = 0
  topology : s.topology = (children.count + 1).toUInt8
  few : children.count ≤ 3
  backAt : s.DCrt (ecxPrevport s.activeports 0) = s.DCrt 0 + Int32.ofNat (tour children)

variable {s parent : DcSlave} {reference : Int32} {children : Forest Station}
  {port arrived sent total wires : ℕ}

theorem tour_of_count (h : children.count = 0) :
  tour children = 0
  := by
  cases children with
  | nil => rfl
  | cons root below siblings =>
      rw [Forest.count] at h
      omega

/-- The delay is the time at which the frame arrives, if the branch takes as long in both
directions. -/
theorem delay_eq {notFirst : Bool} (habove : Above parent reference port arrived sent total)
    (hbelow : Below s children) (htotal : total = 2 * wires + tour children)
    (hfirst : notFirst = false → sent = arrived) :
  DcContext.delay s parent port notFirst = Int32.ofNat (sent + wires) - reference
  := by
  have hone := one_lt_of_degree hbelow.topology hbelow.few
  have hdt1 : (if 1 < s.topology then
      s.DCrt (ecxPrevport s.activeports s.entryport) - s.DCrt s.entryport else 0)
      = Int32.ofNat (tour children) := by
    rw [hbelow.entry, hbelow.backAt]
    split
    case isTrue => grind
    case isFalse hleaf =>
      rw [hone, Nat.pos_iff_ne_zero, not_not] at hleaf
      rw [tour_of_count hleaf]
      rfl
  have hdt3 : parent.DCrt port - parent.DCrt (ecxPrevport parent.activeports port)
      = Int32.ofNat total := by
    rw [habove.backAt]
    grind
  have hdt2 : (if notFirst = true then parent.DCrt (ecxPrevport parent.activeports port)
      - parent.DCrt parent.entryport else 0) = Int32.ofNat (sent - arrived) := by
    rw [habove.entry, habove.sentAt, Int32.ofNat_sub _ _ habove.le]
    cases notFirst with
    | true =>
        rw [if_pos rfl]
        grind
    | false =>
        rw [hfirst rfl]
        grind
  have hhalf : (Int32.ofNat total - Int32.ofNat (tour children)) / 2 = Int32.ofNat wires := by
    have hrange := habove.totalRange
    rw [← Int32.ofNat_sub _ _ (by omega), htotal, Nat.add_sub_cancel, ofNat_half (by omega)]
  have hpositive : ¬ Int32.ofNat (sent - arrived) < 0 :=
    ofNat_not_lt (Nat.zero_le _) habove.range
  rw [DcContext.delay]
  simp only [hdt1, hdt2, hdt3]
  rw [if_neg (ofNat_not_lt (by omega) habove.totalRange), if_neg hpositive, hhalf, habove.pdelay,
    Int32.ofNat_sub _ _ habove.le, Int32.ofNat_add]
  grind

/-! ### What hangs on a slave with a clock -/

/-- The times of the ports of a slave at which the trees of a forest hang, the first of which the
frame is sent to at some time. -/
def Branches (s : DcSlave) (arrived : ℕ) : ℕ → Forest Station → Prop
  | _, .nil => True
  | sent, .cons a children siblings =>
      s.DCrt (ecxPrevport s.activeports a.port)
          = s.DCrt 0 + (Int32.ofNat sent - Int32.ofNat arrived)
        ∧ s.DCrt a.port = s.DCrt (ecxPrevport s.activeports a.port)
          + Int32.ofNat (2 * a.wire + tour children)
        ∧ Branches s arrived (sent + 2 * a.wire + tour children) siblings

section Back

variable {f before : Forest Station} {s : DcSlave} {arrived sent port : ℕ}
  {l : List ℕ}

theorem back_le (port : ℕ) (f : Forest Station) :
  back port f ≤ tour f
  := by
  induction f with
  | nil => exact le_rfl
  | cons a children siblings _ ih =>
      rw [back, tour]
      split
      · omega
      · omega

theorem length_ports :
  (ports f).length = f.count
  := by
  induction f with
  | nil => rfl
  | cons a children siblings _ ih => rw [ports, List.length_cons, ih, Forest.count]

/-- From the times at which the frame comes back, the times of the branches: `l` are the ports
before, and the frame comes back to the last of them after some time. -/
theorem branches_of_back (elapsed : ℕ) (hactive : s.activeports = portBits (0 :: (l ++ ports f)))
    (hwired : (l ++ ports f).Sublist [3, 1, 2])
    (hbefore : s.DCrt (l.getLastD 0) = s.DCrt 0 + Int32.ofNat elapsed)
    (hback : ∀ port ∈ ports f, s.DCrt port = s.DCrt 0 + Int32.ofNat (elapsed + back port f)) :
  Branches s arrived (arrived + elapsed) f
  := by
  induction f generalizing l elapsed with
  | nil => trivial
  | cons a children siblings _ ih =>
      have hprev : ecxPrevport s.activeports a.port = l.getLastD 0 := by
        rw [hactive]
        apply ecxPrevport_append hwired
      have hself : s.DCrt a.port
          = s.DCrt 0 + Int32.ofNat (elapsed + (2 * a.wire + tour children)) := by
        have := hback a.port List.mem_cons_self
        rwa [back, if_pos rfl] at this
      have hnodup : (l ++ ports (.cons a children siblings)).Nodup :=
        hwired.nodup (by decide)
      have hnot : a.port ∉ ports siblings :=
        (List.nodup_cons.mp (List.nodup_append.mp hnodup).2.1).1
      refine ⟨?_, ?_, ?_⟩
      · rw [hprev, hbefore, Int32.ofNat_add]
        grind
      · rw [hprev, hbefore, hself, Int32.ofNat_add]
        grind
      · rw [ports, List.append_cons] at hactive hwired
        rw [Nat.add_assoc, Nat.add_assoc arrived]
        apply ih _ hactive hwired
        · rw [List.getLastD_concat, hself]
        · intro port hport
          have hne : a.port ≠ port := by
            rintro rfl
            apply hnot hport
          have := hback port (List.mem_cons_of_mem _ hport)
          rw [back, if_neg hne] at this
          rw [this, Nat.add_assoc elapsed]

theorem branches_congr {s' : DcSlave} (h : Keeps s s') :
  Branches s' arrived sent f ↔ Branches s arrived sent f
  := by
  induction f generalizing sent with
  | nil => exact Iff.rfl
  | cons a children siblings _ ih => rw [Branches, Branches, h.activeports, h.DCrt, ih]

/-- The frame comes back last to the last port. -/
theorem back_getLastD (hnodup : (ports f).Nodup) (hne : f ≠ .nil) :
  back ((ports f).getLastD 0) f = tour f
  := by
  induction f with
  | nil => exact absurd rfl hne
  | cons a children siblings _ ih =>
      rw [ports, List.nodup_cons] at hnodup
      rw [back, tour]
      cases siblings with
      | nil => rw [ports, ports, List.getLastD_cons, List.getLastD_nil, if_pos rfl, tour]
      | cons b below rest =>
          have hlast : (ports (.cons a children (.cons b below rest))).getLastD 0
              = (ports (.cons b below rest)).getLastD 0 := by
            rw [ports, ports, List.getLastD_cons, List.getLastD_cons, List.getLastD_cons]
          have hmem : (ports (.cons b below rest)).getLastD 0 ∈ ports (.cons b below rest) := by
            rw [ports, List.getLastD_cons]
            apply List.getLastD_mem_cons
          rw [hlast, if_neg, ih hnodup.2 (by simp)]
          intro heq
          rw [heq] at hnodup
          apply hnodup.1 hmem

end Back

/-! ### The tree -/

/-- The delay of a slave with a clock is the time of arrival of the frame, from a reference on. -/
def Delayed (slave : ℕ → DcSlave) (reference : Int32) (b : Passage) (a : Station)
    (_ : Forest Station) : Prop :=
  a.hasdc = true → (slave b.place.number).pdelay = Int32.ofNat (b.sent + a.wire) - reference

/-- The slaves of a forest are looked at. -/
def visit (bus : DcBus) (mastertime : UInt64) (n : ℕ) (f : Forest Station) (c : DcContext) :
    DcContext :=
  (List.range' n f.size).foldl (DcContext.configure bus mastertime) c

/-- What a forest hangs on, if this is a slave with a clock. -/
structure Hangs (c : DcContext) (reference : Int32) (arrived : ℕ) (b : Passage)
    (f : Forest Station) : Prop where
  positive : 0 < b.place.parent
  lt : b.place.parent < b.place.number
  hasdc : (c.slave b.place.parent).hasdc = true
  entry : (c.slave b.place.parent).entryport = 0
  pdelay : (c.slave b.place.parent).pdelay = Int32.ofNat arrived - reference
  le : arrived ≤ b.sent
  first : b.place.number = b.place.parent + 1 → b.sent = arrived
  range : b.sent - arrived + tour f < 2 ^ 31
  branches : Branches (c.slave b.place.parent) arrived b.sent f
  degree : ∃ degree, f.count ≤ degree ∧ degree ≤ 3
    ∧ (c.slave b.place.parent).topology = (degree + 1).toUInt8
  wired : (ports f).Sublist [3, 1, 2]
  consumed : f ≠ .nil → (c.slave b.place.parent).consumedports = portBits (ports f)
  parenthold : c.parenthold = 0

/-- What a tree hangs on below a slave without a clock: a branch of a slave with a clock, that goes
through slaves with one child only. -/
structure Chained (c : DcContext) (reference : Int32) (arrived sent : ℕ) (hang : ℕ × ℕ) (port : ℕ)
    (b : Passage) (f : Forest Station) : Prop where
  positive : 0 < hang.1
  lt : hang.1 < b.place.parent
  lt_number : b.place.parent < b.place.number
  hasdc : (c.slave b.place.parent).hasdc = false
  topology : (c.slave b.place.parent).topology = 2
  search : ∀ fuel, b.place.parent ≤ fuel →
    DcContext.dcParent c.slave fuel b.place.parent = hang
  clock : (c.slave hang.1).hasdc = true
  le : sent ≤ b.sent
  above : Above (c.slave hang.1) reference port arrived sent (2 * (b.sent - sent) + tour f)
  first : hang.2 ≤ hang.1 + 1 → sent = arrived
  single : f.count = 1
  next : (ecxParentport (c.slave hang.1).consumedports).1 = port
  ne_one : (c.slave hang.1).topology ≠ 1
  parenthold : c.parenthold = if 2 < (c.slave hang.1).topology then hang.1 else 0

/-- What a tree hangs on before the first slave with a clock. -/
structure Unclocked (c : DcContext) (b : Passage) (f : Forest Station) : Prop where
  lt : b.place.parent < b.place.number
  hasdc : 0 < b.place.parent → (c.slave b.place.parent).hasdc = false
    ∧ (c.slave b.place.parent).topology = 2
    ∧ ∀ fuel, b.place.parent ≤ fuel →
      (DcContext.dcParent c.slave fuel b.place.parent).1 = 0
  single : f.count ≤ 1
  parenthold : c.parenthold = 0

/-- What is known when the slaves of a forest, that hangs on `above`, have been looked at. -/
structure Visited (c c' : DcContext) (reference : Int32) (above : ℕ) (b : Passage)
    (f : Forest Station) : Prop where
  delayed : f.Each passing (Delayed c'.slave reference) b
  others : ∀ k, 0 < k → (k < b.place.number ∨ b.place.number + f.size ≤ k) →
    (c'.slave k).core = (c.slave k).core
  kept : ∀ k, 0 < k → k ≠ above → (k < b.place.number ∨ b.place.number + f.size ≤ k) →
    (c'.slave k).consumedports = (c.slave k).consumedports
  parenthold : c'.parenthold = 0

section Tree

variable {bus : DcBus} {mastertime : UInt64} {c c' c'' : DcContext} {reference : Int32}
  {slave slave' : ℕ → DcSlave} {arrived sent n k port : ℕ} {hang : ℕ × ℕ} {a : Station}
  {f children siblings : Forest Station} {b : Passage} {p : Place}

theorem visit_nil : visit bus mastertime n .nil c = c := rfl

theorem visit_cons :
  visit bus mastertime n (.cons a children siblings) c
    = visit bus mastertime (n + 1 + children.size) siblings
      (visit bus mastertime (n + 1) children (c.configure bus mastertime n))
  := by
  rw [visit, visit, visit, Forest.size, List.range'_succ, List.foldl_cons,
    ← List.range'_append_1, List.foldl_append]

theorem Surveyed.of_keeps (h : Surveyed bus slave p a children)
    (hkeeps : Keeps (slave p.number) (slave' p.number)) :
  Surveyed bus slave' p a children
  where
  toTimed := h.toTimed
  hasdc := hkeeps.hasdc.trans h.hasdc
  topology := hkeeps.topology.trans h.topology
  activeports := hkeeps.activeports.trans h.activeports
  parent := hkeeps.parent.trans h.parent
  pdelay := hkeeps.pdelay.trans h.pdelay

theorem surveyed_congr (h : f.Each Forest.numbering (Surveyed bus slave) p)
    (hcore : ∀ k, p.number ≤ k → k < p.number + f.size → (slave' k).core = (slave k).core) :
  f.Each Forest.numbering (Surveyed bus slave') p
  := by
  apply (h.and (Forest.each_number _ _)).imp
  rintro q _ _ ⟨hq, hlow, hhigh⟩
  apply hq.of_keeps (Keeps.of_core (hcore _ hlow (by omega)))

theorem delayed_congr (h : f.Each passing (Delayed slave reference) b)
    (hcore : ∀ k, b.place.number ≤ k → k < b.place.number + f.size →
      (slave' k).core = (slave k).core) :
  f.Each passing (Delayed slave' reference) b
  := by
  have hnumber := (Forest.each_map_iff (v := passing) (g := Passage.place)
    (fun _ _ => rfl) (fun _ _ _ => rfl)).mpr (Forest.each_number b.place f)
  apply (h.and hnumber).imp
  rintro q _ _ ⟨hq, hlow, hhigh⟩ hdc
  rw [(Keeps.of_core (hcore _ hlow (by omega))).pdelay, hq hdc]

/-- The latched times of a slave with a clock. -/
theorem times_of_measured (hs : Surveyed bus c.slave ⟨k, n⟩ a children) (hdc : a.hasdc = true)
    (hm : DcContext.Measured bus c c' n hang) :
  (c'.slave n).DCrt 0 = a.latch ∧ ∀ port ∈ ports children,
    (c'.slave n).DCrt port = (c'.slave n).DCrt 0 + Int32.ofNat (back port children)
  := by
  have hentered := hm.times 0 a.latch (by decide) (hs.entered hdc)
  refine ⟨hentered, ?_⟩
  intro port hport
  rw [hentered]
  apply hm.times port _ _ (hs.returned hdc port hport)
  have := hs.wired.subset hport
  simp only [List.mem_cons, List.not_mem_nil, or_false] at this
  omega

theorem entry_of_measured (hs : Surveyed bus c.slave ⟨k, n⟩ a children) (hdc : a.hasdc = true)
    (hm : DcContext.Measured bus c c' n hang) :
  (c'.slave n).entryport = 0
  := by
  obtain ⟨hentered, htimes⟩ := times_of_measured hs hdc hm
  rw [hm.entryport, hs.activeports]
  apply entryPort_eq hs.wired
  intro port hport
  rw [htimes port hport, hentered]
  apply add_ofNat_not_lt
  have htimely := hs.timely hdc
  have hle := back_le port children
  omega

theorem below_of_measured (hs : Surveyed bus c.slave ⟨k, n⟩ a children) (hdc : a.hasdc = true)
    (hm : DcContext.Measured bus c c' n hang) :
  Below (c'.slave n) children
  := by
  obtain ⟨-, htimes⟩ := times_of_measured hs hdc hm
  have hactive := hm.activeports.trans hs.activeports
  refine ⟨entry_of_measured hs hdc hm, hm.topology.trans hs.topology, ?_, ?_⟩
  · rw [← length_ports]
    apply hs.wired.length_le
  · rw [hactive, ecxPrevport_entry hs.wired]
    by_cases hnil : children = .nil
    · subst hnil
      rw [ports, List.getLastD_nil, tour]
      grind
    · have hnodup : (ports children).Nodup := hs.wired.nodup (by decide)
      rw [htimes, back_getLastD hnodup hnil]
      cases children with
      | nil => exact absurd rfl hnil
      | cons root below rest =>
          rw [ports, List.getLastD_cons]
          apply List.getLastD_mem_cons

/-- The children of a slave with a clock hang on it. -/
theorem hangs_of_measured (hn : 0 < n) (hs : Surveyed bus c.slave ⟨k, n⟩ a children)
    (hdc : a.hasdc = true) (hm : DcContext.Measured bus c c' n hang)
    (hpdelay : (c'.slave n).pdelay = Int32.ofNat arrived - reference)
    (hrange : tour children < 2 ^ 31) :
  Hangs c' reference arrived ⟨⟨n, n + 1⟩, arrived⟩ children
  := by
  obtain ⟨-, htimes⟩ := times_of_measured hs hdc hm
  have hentry := entry_of_measured hs hdc hm
  have hfew : children.count ≤ 3 := by
    rw [← length_ports]
    apply hs.wired.length_le
  refine ⟨hn, Nat.lt_succ_self n, hm.hasdc, hentry, hpdelay, le_rfl, fun _ => rfl, ?_, ?_,
    ⟨children.count, le_rfl, hfew, hm.topology.trans hs.topology⟩, hs.wired, ?_, hm.parenthold⟩
  · rwa [Nat.sub_self, Nat.zero_add]
  · apply branches_of_back 0 (l := []) (hm.activeports.trans hs.activeports) hs.wired
    · rw [List.getLastD_nil]
      grind
    · intro port hport
      rw [Nat.zero_add]
      apply htimes port hport
  · intro _
    rw [hm.left, hs.activeports, hentry, consume_entry hs.wired]

/-- A tree has been looked at, and then the trees after it. -/
theorem Visited.append {above : ℕ} (hpos : 0 < b.place.number)
    (h : Visited c c' reference above b (.cons a children .nil))
    (h' : Visited c' c'' reference above (passing.on b a children) siblings) :
  Visited c c'' reference above b (.cons a children siblings)
  := by
  have hsize : Forest.size (.cons a children siblings)
      = Forest.size (.cons a children .nil) + siblings.size := by
    rw [Forest.size, Forest.size, Forest.size]
    omega
  have htree : Forest.size (.cons a children .nil) = children.size + 1 := rfl
  have hothers := h'.others
  have hkept := h'.kept
  simp only [passing, Forest.numbering] at hothers hkept
  refine ⟨?_, ?_, ?_, h'.parenthold⟩
  · have hcore : ∀ k, b.place.number ≤ k
        → k < b.place.number + Forest.size (.cons a children .nil)
        → (c''.slave k).core = (c'.slave k).core := by
      intro k hlow hhigh
      apply hothers k (by omega)
      omega
    obtain ⟨hroot, hchildren, -⟩ := delayed_congr h.delayed hcore
    exact ⟨hroot, hchildren, h'.delayed⟩
  · intro k hk hout
    rw [hothers k hk (by omega), h.others k hk (by omega)]
  · intro k hk hne hout
    rw [hkept k hk hne (by omega), h.kept k hk hne (by omega)]

theorem visited_nil {above : ℕ} (h : c.parenthold = 0) :
  Visited c c reference above b .nil
  := ⟨trivial, fun _ _ _ => rfl, fun _ _ _ _ => rfl, h⟩

/-- A slave with a clock has been looked at, and then what hangs on it. -/
theorem visited_clock (hm : DcContext.Measured bus c c' b.place.number hang)
    (hpos : 0 < b.place.number)
    (hpdelay : (c'.slave b.place.number).pdelay = Int32.ofNat (b.sent + a.wire) - reference)
    (h : Visited c' c'' reference b.place.number (passing.down b a) children) :
  Visited c c'' reference hang.1 b (.cons a children .nil)
  := by
  have htree : Forest.size (.cons a children .nil) = children.size + 1 := rfl
  have hothers := h.others
  have hkept := h.kept
  simp only [passing, Forest.numbering] at hothers hkept
  refine ⟨⟨?_, h.delayed, trivial⟩, ?_, ?_, h.parenthold⟩
  · intro _
    rw [(Keeps.of_core (hothers _ hpos (by omega))).pdelay, hpdelay]
  · intro k hk hout
    rw [hothers k hk (by omega), hm.others k hk (by omega)]
  · intro k hk hne hout
    rw [hkept k hk (by omega) (by omega), hm.kept k hk (by omega) hne]

/-- A slave without a clock has been looked at, and then what hangs on it. -/
theorem visited_pass {above hold : ℕ} (hdc : a.hasdc = false)
    (hp : DcContext.Passed c c' b.place.number hold) (hhold : hold = 0 ∨ hold = above)
    (h : Visited c' c'' reference above (passing.down b a) children) :
  Visited c c'' reference above b (.cons a children .nil)
  := by
  have htree : Forest.size (.cons a children .nil) = children.size + 1 := rfl
  have hothers := h.others
  have hkept := h.kept
  simp only [passing, Forest.numbering] at hothers hkept
  refine ⟨⟨?_, h.delayed, trivial⟩, ?_, ?_, h.parenthold⟩
  · intro hclock
    rw [hdc] at hclock
    cases hclock
  · intro k hk hout
    rw [hothers k hk (by omega), hp.others k (by omega)]
  · intro k hk hne hout
    rw [hkept k hk hne (by omega), hp.kept k (by omega) (by omega)]

/-- The delay of a slave with a clock below another one. -/
theorem pdelay_of_measured {total wires : ℕ} (hm : DcContext.Measured bus c c' n hang)
    (hbelow : Below (c'.slave n) children) (hpos : 0 < hang.1)
    (habove : Above (c.slave hang.1) reference port arrived sent total)
    (hnext : (ecxParentport (c.slave hang.1).consumedports).1 = port)
    (hne : (c.slave hang.1).topology ≠ 1) (htotal : total = 2 * wires + tour children)
    (hfirst : hang.2 ≤ hang.1 + 1 → sent = arrived) :
  (c'.slave n).pdelay = Int32.ofNat (sent + wires) - reference
  := by
  rw [hm.pdelay hpos hne, hnext]
  apply delay_eq habove hbelow htotal
  intro hnot
  apply hfirst
  rw [decide_eq_false_iff_not] at hnot
  omega

/-- The search upwards from a slave below another one. -/
theorem dcParent_below {fuel : ℕ} (hn : 0 < n) (hfuel : n ≤ fuel) (hparent : (slave n).parent = k)
    (hk : k ≠ 0) :
  DcContext.dcParent slave fuel n
    = if (slave k).hasdc then (k, n) else DcContext.dcParent slave (fuel - 1) k
  := by
  obtain ⟨m, rfl⟩ := Nat.exists_eq_succ_of_ne_zero (Nat.ne_zero_of_lt (hn.trans_le hfuel))
  rw [DcContext.dcParent, hparent]
  by_cases hdc : (slave k).hasdc = true
  · rw [if_pos (Or.inr hdc), if_pos hdc]
  · rw [if_neg (not_or.mpr ⟨hk, hdc⟩), if_neg hdc, Nat.succ_sub_one]

/-- The search upwards is not changed by a slave without a clock. -/
theorem search_of_passed {hold fuel : ℕ} (hp : DcContext.Passed c c' n hold)
    (hdc : (c.slave n).hasdc = false) (hn : 0 < n) :
  DcContext.dcParent c'.slave fuel n = DcContext.dcParent c.slave fuel n
  := by
  apply DcContext.dcParent_congr _ hn
  intro k _
  by_cases hk : k = n
  · rw [hk, hp.hasdc, hp.parent, hdc]
    exact ⟨rfl, rfl⟩
  · have hkeeps := Keeps.of_core (hp.others k hk)
    exact ⟨hkeeps.hasdc, hkeeps.parent⟩

section Hangs

variable (h : Hangs c reference arrived b (.cons a children siblings))

include h

theorem Hangs.above :
  Above (c.slave b.place.parent) reference a.port arrived b.sent (2 * a.wire + tour children)
  := by
  have hrange := h.range
  rw [tour] at hrange
  obtain ⟨hsent, hback, -⟩ := h.branches
  exact ⟨h.entry, h.pdelay, h.le, hsent, hback, by omega, by omega⟩

theorem Hangs.ne_one :
  (c.slave b.place.parent).topology ≠ 1
  := by
  obtain ⟨degree, hcount, hdegree, htopology⟩ := h.degree
  have := (one_lt_of_degree htopology hdegree).mpr (by rw [Forest.count] at hcount; omega)
  rintro heq
  rw [heq] at this
  exact absurd this (by decide)

theorem Hangs.next :
  ecxParentport (c.slave b.place.parent).consumedports = (a.port, portBits (ports siblings))
  := by
  rw [h.consumed (by simp)]
  apply ecxParentport_cons h.wired

/-- When a tree has been looked at and its port has been consumed, the trees after it hang on the
same slave. -/
theorem Hangs.rest (hv : Visited c c' reference b.place.parent b (.cons a children .nil))
    (hconsumed : siblings ≠ .nil → (c'.slave b.place.parent).consumedports
      = (ecxParentport (c.slave b.place.parent).consumedports).2) :
  Hangs c' reference arrived (passing.on b a children) siblings
  := by
  have hkeeps := Keeps.of_core (hv.others _ h.positive (Or.inl h.lt))
  obtain ⟨degree, hcount, hdegree, htopology⟩ := h.degree
  have hrange := h.range
  rw [tour] at hrange
  have hlt := h.lt
  have hle := h.le
  rw [Forest.count] at hcount
  refine ⟨h.positive, ?_, ?_, ?_, ?_, ?_, ?_, ?_, ?_, ?_, ?_, ?_, hv.parenthold⟩
  · simp only [passing, Forest.numbering]
    omega
  · exact hkeeps.hasdc.trans h.hasdc
  · exact hkeeps.entryport.trans h.entry
  · exact hkeeps.pdelay.trans h.pdelay
  · simp only [passing]
    omega
  · simp only [passing, Forest.numbering]
    omega
  · simp only [passing]
    omega
  · apply (branches_congr hkeeps).mpr
    apply h.branches.2.2
  · exact ⟨degree, by omega, hdegree, hkeeps.topology.trans htopology⟩
  · exact (List.sublist_cons_self _ _).trans h.wired
  · intro hnil
    refine (hconsumed hnil).trans ?_
    rw [h.next]

end Hangs

variable (bus mastertime f) in
/-- The delays of a forest are found: when it hangs on a slave with a clock, and when it hangs on a
branch that has had no clock so far. -/
structure Resolves : Prop where
  hangs : ∀ (c : DcContext) (reference : Int32) (arrived : ℕ) (b : Passage),
    f.Each Forest.numbering (Surveyed bus c.slave) b.place → Hangs c reference arrived b f →
    Visited c (visit bus mastertime b.place.number f c) reference b.place.parent b f
  chained : ∀ (c : DcContext) (reference : Int32) (arrived sent : ℕ) (hang : ℕ × ℕ) (port : ℕ)
    (b : Passage), f.Each Forest.numbering (Surveyed bus c.slave) b.place →
    Chained c reference arrived sent hang port b f →
    Visited c (visit bus mastertime b.place.number f c) reference hang.1 b f
      ∧ (2 < (c.slave hang.1).topology →
        ((visit bus mastertime b.place.number f c).slave hang.1).consumedports
          = (ecxParentport (c.slave hang.1).consumedports).2)

/-- A tree below a slave with a clock, when the delay of its root is found. -/
theorem visited_measured (hc : Resolves bus mastertime children) (hpos : 0 < b.place.number)
    (hdc : a.hasdc = true)
    (hs : (Forest.cons a children .nil).Each Forest.numbering (Surveyed bus c.slave) b.place)
    (hm : DcContext.Measured bus c (c.configure bus mastertime b.place.number) b.place.number hang)
    (hlt : hang.1 < b.place.number)
    (hpdelay : ((c.configure bus mastertime b.place.number).slave b.place.number).pdelay
      = Int32.ofNat (b.sent + a.wire) - reference)
    (hrange : tour children < 2 ^ 31) :
  Visited c (visit bus mastertime b.place.number (.cons a children .nil) c) reference hang.1 b
      (.cons a children .nil)
    ∧ (0 < hang.1 →
      ((visit bus mastertime b.place.number (.cons a children .nil) c).slave hang.1).consumedports
        = (ecxParentport (c.slave hang.1).consumedports).2)
  := by
  obtain ⟨hroot, hbelow, -⟩ := hs
  have hsurveyed : children.Each Forest.numbering
      (Surveyed bus (c.configure bus mastertime b.place.number).slave)
      (Forest.numbering.down b.place a) := by
    apply surveyed_congr hbelow
    intro k hlow _
    simp only [Forest.numbering] at hlow
    apply hm.others k (by omega) (by omega)
  have hv := hc.hangs _ reference _ (passing.down b a) hsurveyed
    (hangs_of_measured hpos hroot hdc hm hpdelay hrange)
  rw [visit_cons, visit_nil]
  refine ⟨visited_clock hm hpos hpdelay hv, ?_⟩
  intro hhang
  have hkept := hv.kept hang.1 hhang hlt.ne
    (Or.inl (by simp only [passing, Forest.numbering]; omega))
  rw [← hm.consumed hhang]
  apply hkept

/-- A tree whose root has no clock, in the middle of a branch of a slave with a clock. -/
theorem visited_passed {hold : ℕ} (hc : Resolves bus mastertime children) (hdc : a.hasdc = false)
    (hs : (Forest.cons a children .nil).Each Forest.numbering (Surveyed bus c.slave) b.place)
    (hp : DcContext.Passed c (c.configure bus mastertime b.place.number) b.place.number hold)
    (hhold : hold = if 2 < (c.slave hang.1).topology then hang.1 else 0)
    (hpos : 0 < hang.1) (hlt : hang.1 < b.place.number)
    (hchained : children.count = 1 →
      Chained (c.configure bus mastertime b.place.number) reference arrived sent hang port
        (passing.down b a) children) :
  Visited c (visit bus mastertime b.place.number (.cons a children .nil) c) reference hang.1 b
      (.cons a children .nil)
    ∧ (2 < (c.slave hang.1).topology →
      ((visit bus mastertime b.place.number (.cons a children .nil) c).slave hang.1).consumedports
        = (ecxParentport (c.slave hang.1).consumedports).2)
  := by
  obtain ⟨hroot, hbelow, -⟩ := hs
  have htopology := hroot.topology
  have hsingle := hroot.single hdc
  have hor : hold = 0 ∨ hold = hang.1 := by
    rw [hhold]
    split
    · exact Or.inr rfl
    · exact Or.inl rfl
  rw [visit_cons, visit_nil]
  rcases Nat.eq_zero_or_pos children.count with hzero | hcount
  · -- the branch ends here
    have hleaf : children = .nil := by
      cases children with
      | nil => rfl
      | cons root below rest => simp [Forest.count] at hzero
    subst hleaf
    obtain ⟨hparenthold, hconsumed⟩ := hp.ended htopology
    rw [visit_nil]
    refine ⟨visited_pass hdc hp hor (visited_nil hparenthold), ?_⟩
    intro htwo
    rw [if_pos htwo] at hhold
    rw [← hhold]
    apply hconsumed
    rwa [hhold]
  · have hone : children.count = 1 := by omega
    rw [hone] at htopology
    obtain ⟨-, hgoes⟩ := hp.goesOn (by rw [htopology]; decide)
    have hsurveyed : children.Each Forest.numbering
        (Surveyed bus (c.configure bus mastertime b.place.number).slave)
        (Forest.numbering.down b.place a) := by
      apply surveyed_congr hbelow
      intro k hlow _
      simp only [Forest.numbering] at hlow
      apply hp.others k (by omega)
    obtain ⟨hv, hconsumed⟩ := hc.chained _ reference _ _ hang _ (passing.down b a) hsurveyed
      (hchained hone)
    refine ⟨visited_pass hdc hp hor hv, ?_⟩
    intro htwo
    have hkeeps := Keeps.of_core (hp.others hang.1 hlt.ne)
    rw [← hgoes hang.1 hlt.ne]
    apply hconsumed
    rwa [hkeeps.topology]

/-- What hangs on a slave with a clock stays so when the delay of the slave is looked at again. -/
theorem Above.of_keeps {s s' : DcSlave} {total : ℕ} (hk : Keeps s s')
    (h : Above s reference port arrived sent total) :
  Above s' reference port arrived sent total
  where
  entry := hk.entryport.trans h.entry
  pdelay := hk.pdelay.trans h.pdelay
  le := h.le
  sentAt := by
    rw [hk.DCrt, hk.activeports]
    apply h.sentAt
  backAt := by
    rw [hk.DCrt, hk.activeports]
    apply h.backAt
  range := h.range
  totalRange := h.totalRange

/-- The first tree of a forest that hangs on a slave with a clock. -/
theorem Hangs.tree (hc : Resolves bus mastertime children)
    (hs : (Forest.cons a children .nil).Each Forest.numbering (Surveyed bus c.slave) b.place)
    (h : Hangs c reference arrived b (.cons a children siblings)) :
  Visited c (visit bus mastertime b.place.number (.cons a children .nil) c) reference
      b.place.parent b (.cons a children .nil)
    ∧ (siblings ≠ .nil →
      ((visit bus mastertime b.place.number (.cons a children .nil) c).slave
          b.place.parent).consumedports
        = (ecxParentport (c.slave b.place.parent).consumedports).2)
  := by
  have hroot := hs.1
  have hparent := hroot.parent
  have hpos := Nat.zero_lt_of_lt h.lt
  have hrange := h.range
  rw [tour] at hrange
  cases hdc : a.hasdc with
  | true =>
      have hsearch : DcContext.dcParent c.slave b.place.number b.place.number
          = (b.place.parent, b.place.number) := by
        rw [dcParent_below hpos le_rfl hparent h.positive.ne', if_pos h.hasdc]
      have hm := DcContext.measured bus mastertime hpos
        (hroot.hasdc.trans hdc) hsearch h.lt.ne
      have hpdelay := pdelay_of_measured hm (below_of_measured hroot hdc hm) h.positive h.above
        (by rw [h.next]) h.ne_one rfl fun hle => h.first (by have := h.lt; dsimp only at hle; omega)
      obtain ⟨hv, hconsumed⟩ := visited_measured hc hpos hdc hs hm h.lt hpdelay (by omega)
      exact ⟨hv, fun _ => hconsumed h.positive⟩
  | false =>
      obtain ⟨degree, hcount, hdegree, htopology⟩ := h.degree
      have hheld : c.held b.place.number
          = if 2 < (c.slave b.place.parent).topology then b.place.parent else 0 := by
        rw [DcContext.held, hparent, h.parenthold]
        simp only [h.positive, true_and]
      have hheldlt : c.held b.place.number < b.place.number := by
        rw [hheld]
        split
        · exact h.lt
        · exact hpos
      have hp := DcContext.passed bus mastertime (hroot.hasdc.trans hdc)
        (by rw [hparent]; exact h.lt.ne) hheldlt.ne
      have hkeeps := Keeps.of_core (hp.others b.place.parent h.lt.ne)
      have hchained : children.count = 1 →
          Chained (c.configure bus mastertime b.place.number) reference arrived b.sent
            (b.place.parent, b.place.number) a.port (passing.down b a) children := by
        intro hone
        have htwo : (c.slave b.place.number).topology = 2 := by
          rw [hroot.topology, hone]
          rfl
        obtain ⟨hparenthold, hgoes⟩ := hp.goesOn (by rw [htwo]; decide)
        refine ⟨h.positive, h.lt, Nat.lt_succ_self _, hp.hasdc, hp.topology.trans htwo, ?_,
          hkeeps.hasdc.trans h.hasdc, ?_, ?_, ?_, hone, ?_, ?_, ?_⟩
        · intro fuel hfuel
          refine (dcParent_below hpos hfuel (hp.parent.trans hparent) h.positive.ne').trans ?_
          rw [if_pos (hkeeps.hasdc.trans h.hasdc)]
        · simp only [passing]
          omega
        · have htotal : 2 * ((passing.down b a).sent - b.sent) + tour children
              = 2 * a.wire + tour children := by
            simp only [passing]
            omega
          rw [htotal]
          apply h.above.of_keeps hkeeps
        · intro hle
          apply h.first
          have := h.lt
          dsimp only at hle
          omega
        · rw [hgoes _ h.lt.ne, h.next]
        · rw [hkeeps.topology]
          apply h.ne_one
        · rw [hparenthold, hheld, hkeeps.topology]
      obtain ⟨hv, hconsumed⟩ := visited_passed hc hdc hs hp hheld h.positive h.lt hchained
      refine ⟨hv, ?_⟩
      intro hnil
      apply hconsumed
      -- there is one more child, so the slave is a split
      have hmore : 0 < siblings.count := by
        cases siblings with
        | nil => exact absurd rfl hnil
        | cons root below rest => exact Nat.succ_pos _
      rw [Forest.count] at hcount
      rw [htopology]
      interval_cases degree
      · omega
      · omega
      · decide
      · decide

/-- A tree in the middle of a branch that has had no clock so far. -/
theorem Chained.tree (hc : Resolves bus mastertime children)
    (hs : (Forest.cons a children .nil).Each Forest.numbering (Surveyed bus c.slave) b.place)
    (h : Chained c reference arrived sent hang port b (.cons a children .nil)) :
  Visited c (visit bus mastertime b.place.number (.cons a children .nil) c) reference hang.1 b
      (.cons a children .nil)
    ∧ (2 < (c.slave hang.1).topology →
      ((visit bus mastertime b.place.number (.cons a children .nil) c).slave hang.1).consumedports
        = (ecxParentport (c.slave hang.1).consumedports).2)
  := by
  have hroot := hs.1
  have hparent := hroot.parent
  have hpos := Nat.zero_lt_of_lt h.lt_number
  have hparentpos := Nat.zero_lt_of_lt h.lt
  have hlt := h.lt.trans h.lt_number
  have habove := h.above
  rw [tour, tour, Nat.add_zero] at habove
  have hrange := habove.totalRange
  have hle := h.le
  have hup : ∀ fuel, b.place.number ≤ fuel →
      DcContext.dcParent c.slave fuel b.place.number = hang := by
    intro fuel hfuel
    rw [dcParent_below hpos hfuel hparent hparentpos.ne', h.hasdc, if_neg Bool.false_ne_true]
    apply h.search
    have := h.lt_number
    omega
  cases hdc : a.hasdc with
  | true =>
      have hm := DcContext.measured bus mastertime hpos
        (hroot.hasdc.trans hdc) (hup _ le_rfl) hlt.ne
      have htotal : 2 * (b.sent - sent) + (2 * a.wire + tour children)
          = 2 * (b.sent - sent + a.wire) + tour children := by
        omega
      have hpdelay := pdelay_of_measured hm (below_of_measured hroot hdc hm) h.positive habove
        h.next h.ne_one htotal h.first
      have htime : sent + (b.sent - sent + a.wire) = b.sent + a.wire := by
        omega
      rw [htime] at hpdelay
      obtain ⟨hv, hconsumed⟩ := visited_measured hc hpos hdc hs hm hlt hpdelay (by omega)
      exact ⟨hv, fun _ => hconsumed h.positive⟩
  | false =>
      have hheld : c.held b.place.number
          = if 2 < (c.slave hang.1).topology then hang.1 else 0 := by
        rw [DcContext.held, hparent, if_neg, h.parenthold]
        rintro ⟨-, htwo⟩
        rw [h.topology] at htwo
        exact absurd htwo (by decide)
      have hheldlt : c.held b.place.number < b.place.number := by
        rw [hheld]
        split
        · exact hlt
        · exact hpos
      have hp := DcContext.passed bus mastertime (hroot.hasdc.trans hdc)
        (by rw [hparent]; exact h.lt_number.ne) hheldlt.ne
      have hkeeps := Keeps.of_core (hp.others hang.1 hlt.ne)
      have hchained : children.count = 1 →
          Chained (c.configure bus mastertime b.place.number) reference arrived sent hang port
            (passing.down b a) children := by
        intro hone
        have htwo : (c.slave b.place.number).topology = 2 := by
          rw [hroot.topology, hone]
          rfl
        obtain ⟨hparenthold, hgoes⟩ := hp.goesOn (by rw [htwo]; decide)
        refine ⟨h.positive, hlt, Nat.lt_succ_self _, hp.hasdc, hp.topology.trans htwo, ?_,
          hkeeps.hasdc.trans h.clock, ?_, ?_, h.first, hone, ?_, ?_, ?_⟩
        · intro fuel hfuel
          rw [← hup fuel hfuel]
          apply search_of_passed hp (hroot.hasdc.trans hdc) hpos
        · simp only [passing]
          omega
        · have htotal : 2 * ((passing.down b a).sent - sent) + tour children
              = 2 * (b.sent - sent) + (2 * a.wire + tour children) := by
            simp only [passing]
            omega
          rw [htotal]
          apply habove.of_keeps hkeeps
        · rw [hgoes _ hlt.ne, h.next]
        · rw [hkeeps.topology]
          apply h.ne_one
        · rw [hparenthold, hheld, hkeeps.topology]
      exact visited_passed hc hdc hs hp hheld h.positive hlt hchained

/-- The delays of every forest are found. -/
theorem resolves (bus : DcBus) (mastertime : UInt64) (f : Forest Station) :
  Resolves bus mastertime f
  := by
  induction f with
  | nil =>
      refine ⟨?_, ?_⟩
      · intro c reference arrived b _ h
        apply visited_nil h.parenthold
      · intro c reference arrived sent hang port b _ h
        exact absurd h.single (by decide)
  | cons a children siblings ihc ihs =>
      refine ⟨?_, ?_⟩
      · rintro c reference arrived b ⟨hroot, hbelow, hrest⟩ h
        obtain ⟨hv, hconsumed⟩ := h.tree ihc ⟨hroot, hbelow, trivial⟩
        have hhangs := h.rest hv hconsumed
        have hsurveyed : siblings.Each Forest.numbering
            (Surveyed bus (visit bus mastertime b.place.number (.cons a children .nil) c).slave)
            (Forest.numbering.on b.place a children) := by
          apply surveyed_congr hrest
          intro k hlow _
          have htree : Forest.size (.cons a children .nil) = children.size + 1 := rfl
          simp only [Forest.numbering] at hlow
          apply hv.others k (by omega) (by omega)
        have hall := hv.append (Nat.zero_lt_of_lt h.lt) (ihs.hangs _ _ _ _ hsurveyed hhangs)
        rw [visit_cons, visit_nil] at hall
        rwa [visit_cons]
      · rintro c reference arrived sent hang port b ⟨hroot, hbelow, hrest⟩ h
        have hnil : siblings = .nil := by
          have hsingle := h.single
          cases siblings with
          | nil => rfl
          | cons root below rest => simp [Forest.count] at hsingle
        subst hnil
        exact h.tree ihc ⟨hroot, hbelow, trivial⟩

/-- Before the first slave with a clock nothing is found; its delay is zero, and the delays below
are counted from there. -/
theorem Unclocked.delayed {first : ℕ} (mastertime : UInt64)
    (hs : f.Each Forest.numbering (Surveyed bus c.slave) b.place) (h : Unclocked c b f)
    (hrange : tour f < 2 ^ 31) (hfirst : firstArrival b.sent f = some first) :
  f.Each passing
    (Delayed (visit bus mastertime b.place.number f c).slave (Int32.ofNat first)) b
  := by
  induction f generalizing c b with
  | nil => trivial
  | cons a children siblings ihc _ =>
      obtain ⟨hroot, hbelow, -⟩ := hs
      have hparent := hroot.parent
      have hpos := Nat.zero_lt_of_lt h.lt
      have hnil : siblings = .nil := by
        have hsingle := h.single
        cases siblings with
        | nil => rfl
        | cons root below rest => simp [Forest.count] at hsingle
      subst hnil
      have hup : ∀ fuel, b.place.number ≤ fuel →
          (DcContext.dcParent c.slave fuel b.place.number).1 = 0 := by
        intro fuel hfuel
        rcases Nat.eq_zero_or_pos b.place.parent with hzero | hparentpos
        · obtain ⟨m, rfl⟩ := Nat.exists_eq_succ_of_ne_zero (Nat.ne_zero_of_lt (hpos.trans_le hfuel))
          rw [DcContext.dcParent, hparent, hzero, if_pos (Or.inl rfl)]
        · obtain ⟨hdc, -, hsearch⟩ := h.hasdc hparentpos
          rw [dcParent_below hpos hfuel hparent hparentpos.ne', hdc, if_neg Bool.false_ne_true]
          apply hsearch
          have := h.lt
          omega
      rw [tour, tour] at hrange
      rw [firstArrival] at hfirst
      cases hdc : a.hasdc with
      | true =>
          rw [hdc, if_pos rfl, Option.some_inj] at hfirst
          have hm := DcContext.measured bus mastertime hpos
            (hroot.hasdc.trans hdc) rfl (by rw [hup _ le_rfl]; exact hpos.ne)
          have hpdelay := hm.first (hup _ le_rfl)
          rw [hroot.pdelay, ← Int32.sub_self (Int32.ofNat first)] at hpdelay
          nth_rewrite 1 [← hfirst] at hpdelay
          exact (visited_measured (resolves bus mastertime children) hpos hdc
            ⟨hroot, hbelow, trivial⟩ hm (by rw [hup _ le_rfl]; exact hpos) hpdelay
            (by omega)).1.delayed
      | false =>
          rw [hdc, if_neg Bool.false_ne_true, firstArrival, Option.or_none] at hfirst
          have hheld : c.held b.place.number = 0 := by
            rw [DcContext.held, hparent, if_neg, h.parenthold]
            rintro ⟨hparentpos, htwo⟩
            rw [(h.hasdc hparentpos).2.1] at htwo
            exact absurd htwo (by decide)
          have hp := DcContext.passed bus mastertime (hroot.hasdc.trans hdc)
            (by rw [hparent]; exact h.lt.ne) (by rw [hheld]; exact hpos.ne)
          rw [visit_cons, visit_nil]
          refine ⟨fun hclock => absurd (hdc.symm.trans hclock) Bool.false_ne_true, ?_, trivial⟩
          have hsingle := hroot.single hdc
          rcases Nat.eq_zero_or_pos children.count with hzero | hcount
          · cases children with
            | nil => trivial
            | cons root below rest => simp [Forest.count] at hzero
          · have hone : children.count = 1 := by omega
            have htwo : (c.slave b.place.number).topology = 2 := by
              rw [hroot.topology, hone]
              rfl
            obtain ⟨hparenthold, -⟩ := hp.goesOn (by rw [htwo]; decide)
            apply ihc (b := passing.down b a) _ _ (by omega) hfirst
            · apply surveyed_congr hbelow
              intro k hlow _
              simp only [Forest.numbering] at hlow
              apply hp.others k (by omega)
            · refine ⟨Nat.lt_succ_self _, ?_, hsingle, hparenthold.trans hheld⟩
              intro _
              refine ⟨hp.hasdc, hp.topology.trans htwo, ?_⟩
              intro fuel hfuel
              rw [← hup fuel hfuel]
              apply congrArg Prod.fst
              apply search_of_passed hp (hroot.hasdc.trans hdc) hpos

end Tree

/-! ### The bus as it is found -/

section Found

variable {bus : DcBus} {dlstat : ℕ → UInt16} {slave : ℕ → DcSlave} {p : Place} {a : Station}
  {tree children f : Forest Station} {b : Passage} {first : ℕ}

/-- What `ec_config_init` has found of a slave. -/
structure Found (dlstat : ℕ → UInt16) (slave : ℕ → DcSlave) (n : ℕ) : Prop where
  links : linksOf (dlstat n) = ⟨(slave n).topology, (slave n).activeports⟩
  parent : (slave n).parent = parentOf (fun k => (linksOf (dlstat k)).topology) n
  pdelay : (slave n).pdelay = 0

/-- A slave of the bus: port 0 and the ports with a child are open. -/
structure Cabled (bus : DcBus) (dlstat : ℕ → UInt16) (slave : ℕ → DcSlave) (p : Place) (a : Station)
    (children : Forest Station) : Prop extends Timed bus p a children where
  opened : ∀ port < 4, PortOpen (dlstat p.number) port ↔ port ∈ 0 :: ports children
  hasdc : (slave p.number).hasdc = a.hasdc

/-- The links are those of the open ports. -/
theorem linksOf_eq {dlstat : UInt16} {l : List ℕ} (hl : l.Sublist [3, 1, 2])
    (hopen : ∀ port < 4, PortOpen dlstat port ↔ port ∈ 0 :: l) :
  linksOf dlstat = ⟨(l.length + 1).toUInt8, portBits (0 :: l)⟩
  := by
  have hall : ∀ m ∈ [3, 1, 2].sublists, [0, 1, 2, 3].foldl (fun (x : Links) port =>
      if port ∈ 0 :: m then ⟨x.topology + 1, x.activeports ||| portBit port⟩ else x) ⟨0, 0⟩
      = ⟨(m.length + 1).toUInt8, portBits (0 :: m)⟩ := by decide
  rw [← hall _ (List.mem_sublists.mpr hl), linksOf]
  simp only [Links.look, List.foldl_cons, List.foldl_nil, hopen 0 (by decide),
    hopen 1 (by decide), hopen 2 (by decide), hopen 3 (by decide)]

theorem openPorts_eq {dlstat : UInt16} {l : List ℕ} (hl : l.Sublist [3, 1, 2])
    (hopen : ∀ port < 4, PortOpen dlstat port ↔ port ∈ 0 :: l) :
  openPorts dlstat = l.length + 1
  := by
  have hall : ∀ m ∈ [3, 1, 2].sublists,
      [0, 1, 2, 3].countP (fun port => port ∈ 0 :: m) = m.length + 1 := by decide
  rw [← hall _ (List.mem_sublists.mpr hl), openPorts]
  apply List.countP_congr
  intro port hport
  simp only [decide_eq_true_eq]
  apply hopen
  simp only [List.mem_cons, List.not_mem_nil, or_false] at hport
  omega

/-- The frame arrives at every slave before the end of its way. -/
theorem each_arrival (b : Passage) (f : Forest Station) :
  f.Each passing (fun q a _ => q.sent + a.wire ≤ b.sent + tour f) b
  := by
  induction f generalizing b with
  | nil => trivial
  | cons a children siblings ihc ihs =>
      rw [tour]
      refine ⟨by omega, ?_, ?_⟩
      · apply (ihc (passing.down b a)).imp
        intro q s _ hle
        simp only [passing] at hle
        omega
      · apply (ihs (passing.on b a children)).imp
        intro q s _ hle
        simp only [passing] at hle
        omega

theorem firstArrival_le {sent : ℕ} (h : firstArrival sent f = some first) :
  first ≤ sent + tour f
  := by
  induction f generalizing sent with
  | nil => cases h
  | cons a children siblings ihc ihs =>
      rw [firstArrival] at h
      rw [tour]
      split at h
      · rw [Option.some_inj] at h
        omega
      · rcases Option.or_eq_some_iff.mp h with hc | ⟨-, hs⟩
        · have := ihc hc
          omega
        · have := ihs hs
          omega

theorem toInt_sub_ofNat {x y : ℕ} (hx : x < 2 ^ 31) (hy : y < 2 ^ 31) :
  (Int32.ofNat x - Int32.ofNat y).toInt = (x : ℤ) - y
  := by
  rw [Int32.toInt_sub, Int32.toInt_ofNat_of_lt hx, Int32.toInt_ofNat_of_lt hy]
  apply Int.bmod_eq_of_le
  · omega
  · omega

/-- The slaves are found as they are. -/
theorem surveyed_of_found (hone : tree.count = 1)
    (hcabled : tree.Each Forest.numbering (Cabled bus dlstat slave) ⟨0, 1⟩)
    (hfound : ∀ n, 0 < n → n ≤ tree.size → Found dlstat slave n) :
  tree.Each Forest.numbering (Surveyed bus slave) ⟨0, 1⟩
  := by
  have hparents := parentOf_eq dlstat hone (hcabled.imp fun _ _ _ h => by
    rw [openPorts_eq h.wired h.opened, length_ports])
  apply ((hcabled.and hparents).and (Forest.each_number _ _)).imp
  rintro p a children ⟨⟨h, hparent⟩, hlow, hhigh⟩
  dsimp only at hlow hhigh
  have hp := hfound p.number (by omega) (by omega)
  have hlinks := hp.links
  rw [linksOf_eq h.wired h.opened, Links.mk.injEq, length_ports] at hlinks
  exact ⟨h.toTimed, h.hasdc, hlinks.1.symm, hlinks.2.symm, hp.parent.trans hparent, hp.pdelay⟩

/-- `ec_config_init` and `ec_configdc` find the delays of the slaves: of each slave with a clock,
the time that the frame takes to it from the first one. -/
theorem propagation_delay (mastertime hrt : UInt64) (groupHasdc : ℕ → Bool) (groupDCnext : ℕ → ℕ)
    (hone : tree.count = 1)
    (hcabled : tree.Each Forest.numbering (Cabled bus dlstat slave) ⟨0, 1⟩)
    (hfound : ∀ n, 0 < n → n ≤ tree.size → Found dlstat slave n)
    (hrange : tour tree < 2 ^ 31) (hfirst : firstArrival 0 tree = some first) :
  tree.Each passing (fun b a _ => a.hasdc = true →
    ((ecxConfigdc bus mastertime tree.size slave groupHasdc groupDCnext hrt).slave
      b.place.number).pdelay.toInt = (b.sent + a.wire : ℤ) - first) ⟨⟨0, 1⟩, 0⟩
  := by
  let c := DcContext.start slave groupHasdc groupDCnext hrt
  have hstart : tree.Each Forest.numbering (Surveyed bus c.slave) ⟨0, 1⟩ := by
    apply surveyed_congr (surveyed_of_found hone hcabled hfound)
    intro k hlow _
    dsimp only at hlow
    apply congrArg DcSlave.core (Function.update_of_ne (by omega) _ _)
  have hunclocked : Unclocked c ⟨⟨0, 1⟩, 0⟩ tree :=
    ⟨Nat.zero_lt_one, fun h => absurd h (lt_irrefl 0), hone.le, rfl⟩
  have hdelayed := hunclocked.delayed mastertime hstart hrange hfirst
  have hfirstle := firstArrival_le hfirst
  apply (hdelayed.and (each_arrival _ _)).imp
  rintro b a children ⟨h, hle⟩ hdc
  dsimp only at hle
  refine (congrArg Int32.toInt (h hdc)).trans ?_
  rw [toInt_sub_ofNat (by omega) (by omega)]
  push_cast
  rfl

end Found

/-- A slave with two branches, of which the first goes through a slave without a clock. -/
def branching : Forest Station :=
  .cons ⟨0, 10, true, 1000⟩
    (.cons ⟨3, 20, false, 0⟩ (.cons ⟨1, 30, true, -50⟩ .nil .nil)
      (.cons ⟨1, 40, true, 7⟩ .nil .nil))
    .nil

/-- The times that the clocks of `branching` show. -/
def branchingBus : DcBus where
  dcTime
  | 1, 0 => some 1000
  | 1, 3 => some 1100
  | 1, 1 => some 1180
  | 3, 0 => some (-50)
  | 4, 0 => some 7
  | _, _ => none
  dcSof _ := none

/-- The DL status of the slaves of `branching`. -/
def branchingDlstat : ℕ → UInt16
  | 1 => 0x8a00
  | 2 => 0x0a00
  | _ => 0x0200

/-- The slaves of `branching` as they are found. -/
def branchingSlave (n : ℕ) : DcSlave where
  hasdc := n ≠ 2
  group := 0
  topology := (linksOf (branchingDlstat n)).topology
  activeports := (linksOf (branchingDlstat n)).activeports
  parent := parentOf (fun k => (linksOf (branchingDlstat k)).topology) n
  consumedports := 0
  DCrt _ := 0
  entryport := 0
  parentport := 0
  pdelay := 0
  DCnext := 0
  DCprevious := 0

theorem propagation_delay_branching :
  ((ecxConfigdc branchingBus 0 4 branchingSlave (fun _ => false) (fun _ => 0) 0).slave
    4).pdelay.toInt = 140
  := by
  have hcabled : branching.Each Forest.numbering
      (Cabled branchingBus branchingDlstat branchingSlave) ⟨0, 1⟩ := by
    refine ⟨⟨⟨?_, ?_, ?_, ?_, ?_⟩, ?_, ?_⟩, ⟨⟨⟨?_, ?_, ?_, ?_, ?_⟩, ?_, ?_⟩,
      ⟨⟨⟨?_, ?_, ?_, ?_, ?_⟩, ?_, ?_⟩, trivial, trivial⟩,
      ⟨⟨⟨?_, ?_, ?_, ?_, ?_⟩, ?_, ?_⟩, trivial, trivial⟩⟩, trivial⟩
    all_goals decide
  have h := propagation_delay 0 0 (fun _ => false) (fun _ => 0) rfl hcabled
    (fun _ _ _ => ⟨rfl, rfl, rfl⟩) (by decide) (show firstArrival 0 branching = some 10 from rfl)
  exact h.2.1.2.2.1 rfl

end EthercatMaster
