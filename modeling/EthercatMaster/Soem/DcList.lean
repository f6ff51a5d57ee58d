import EthercatMaster.Soem.DcStep
import Mathlib.Data.List.Chain

/-!
# The list of the slaves with a clock

`ec_configdc` links the slaves with a clock in the order of their positions, behind slave 0, which
stands for the whole bus.
-/

namespace EthercatMaster

namespace DcContext

variable {c c' start : DcContext} {i k : ℕ} {l : List ℕ}

/-- Whether a slave has a clock, the slaves that it is linked with, and its group. -/
def linksTo (s : DcSlave) : Bool × ℕ × ℕ × ℕ :=
  (s.hasdc, s.DCnext, s.DCprevious, s.group)

/-- The slaves of a list are linked behind slave 0 and in their group, the last one of them with
nothing new behind it, and the next one will be linked behind that.  No other link has changed. -/
structure Linked (start c : DcContext) (l : List ℕ) : Prop where
  found : (c.slave 0).hasdc = !l.isEmpty
  last : c.prevDCslave = l.getLastD 0
  chain : (0 :: l).IsChain
    (fun a b => a < b ∧ (c.slave a).DCnext = b ∧ (c.slave b).DCprevious = a)
  lastNext : (c.slave (l.getLastD 0)).DCnext = (start.slave (l.getLastD 0)).DCnext
  previous : (c.slave 0).DCprevious = (start.slave 0).DCprevious
  groupHasdc : c.groupHasdc = l.head?.elim start.groupHasdc fun i =>
    Function.update start.groupHasdc (start.slave i).group true
  groupDCnext : c.groupDCnext = l.head?.elim start.groupDCnext fun i =>
    Function.update start.groupDCnext (start.slave i).group i
  others : ∀ k, k ∉ 0 :: l → linksTo (c.slave k) = linksTo (start.slave k)

/-- A step that keeps the links. -/
structure KeepsLinks (c c' : DcContext) : Prop where
  links : ∀ k, linksTo (c'.slave k) = linksTo (c.slave k)
  last : c'.prevDCslave = c.prevDCslave
  groupHasdc : c'.groupHasdc = c.groupHasdc
  groupDCnext : c'.groupDCnext = c.groupDCnext

theorem KeepsLinks.trans {c'' : DcContext} (h : KeepsLinks c c') (h' : KeepsLinks c' c'') :
  KeepsLinks c c''
  := ⟨fun k => (h'.links k).trans (h.links k), h'.last.trans h.last,
    h'.groupHasdc.trans h.groupHasdc, h'.groupDCnext.trans h.groupDCnext⟩

theorem KeepsLinks.hasdc (h : KeepsLinks c c') (k : ℕ) :
  (c'.slave k).hasdc = (c.slave k).hasdc
  := congrArg (·.1) (h.links k)

theorem KeepsLinks.next (h : KeepsLinks c c') (k : ℕ) :
  (c'.slave k).DCnext = (c.slave k).DCnext
  := congrArg (·.2.1) (h.links k)

theorem KeepsLinks.previous (h : KeepsLinks c c') (k : ℕ) :
  (c'.slave k).DCprevious = (c.slave k).DCprevious
  := congrArg (·.2.2.1) (h.links k)

theorem keepsLinks_set {s : DcSlave} (h : linksTo s = linksTo (c.slave i)) :
  KeepsLinks c (c.set i s)
  := ⟨fun _ => apply_set linksTo fun _ => h, rfl, rfl, rfl⟩

theorem Linked.of_keepsLinks (h : Linked start c l) (hk : KeepsLinks c c') :
  Linked start c' l
  := by
  constructor
  case found => exact (hk.hasdc 0).trans h.found
  case last => exact hk.last.trans h.last
  case chain =>
    apply h.chain.imp
    rintro a b ⟨hab, hnext, hprevious⟩
    exact ⟨hab, (hk.next a).trans hnext, (hk.previous b).trans hprevious⟩
  case lastNext => exact (hk.next _).trans h.lastNext
  case previous => exact (hk.previous 0).trans h.previous
  case groupHasdc => exact hk.groupHasdc.trans h.groupHasdc
  case groupDCnext => exact hk.groupDCnext.trans h.groupDCnext
  case others => exact fun k hnot => (hk.links k).trans (h.others k hnot)

/-- The slaves after a slave has been linked: the last one before and the new one are changed. -/
theorem Linked.link_slave (h : Linked start c l) (i : ℕ) :
  ∃ s : DcSlave, s.DCnext = i ∧ s.DCprevious = (c.slave (l.getLastD 0)).DCprevious
    ∧ (c.link i).slave = ((c.set (l.getLastD 0) s).set i
      { (c.set (l.getLastD 0) s).slave i with DCprevious := l.getLastD 0 }).slave
  := by
  by_cases hnone : (!(c.slave 0).hasdc) = true
  · have hnil := hnone
    rw [h.found, Bool.not_not, List.isEmpty_iff] at hnil
    subst hnil
    refine ⟨{ c.slave 0 with hasdc := true, DCnext := i }, rfl, rfl, ?_⟩
    rw [DcContext.link, if_pos hnone]
    rfl
  · refine ⟨{ c.slave (l.getLastD 0) with DCnext := i }, rfl, rfl, ?_⟩
    rw [DcContext.link, if_neg hnone, ← h.last]
    rfl

/-- The last slave of the list has the highest position. -/
theorem Linked.le_last (h : Linked start c l) (hk : k ∈ 0 :: l) :
  k ≤ l.getLastD 0
  := by
  have hsorted : (0 :: l).Pairwise (· < ·) := by
    rw [← List.isChain_iff_pairwise]
    apply h.chain.imp
    rintro a b ⟨hab, -⟩
    exact hab
  have hlast : (0 :: l).getLast (List.cons_ne_nil _ _) = l.getLastD 0 := by
    cases l with
    | nil => rfl
    | cons a l => rw [List.getLast_cons_cons, List.getLastD_cons, List.getLast_eq_getLastD]
  rw [← List.dropLast_append_getLast (List.cons_ne_nil 0 l)] at hk hsorted
  rw [← hlast]
  rcases List.mem_append.mp hk with hbefore | hself
  · exact ((List.pairwise_append.mp hsorted).2.2 k hbefore _ List.mem_cons_self).le
  · exact (List.mem_singleton.mp hself).le

/-- The first slave that is linked is linked in its group. -/
theorem link_group (hi : 0 < i) (c : DcContext) :
  (c.link i).groupHasdc
      = (if !(c.slave 0).hasdc then Function.update c.groupHasdc (c.slave i).group true
        else c.groupHasdc)
    ∧ (c.link i).groupDCnext
      = if !(c.slave 0).hasdc then Function.update c.groupDCnext (c.slave i).group i
        else c.groupDCnext
  := by
  rw [link]
  split
  · have hgroup : (((c.set 0 { c.slave 0 with hasdc := true, DCnext := i }).set i
        { (c.set 0 { c.slave 0 with hasdc := true, DCnext := i }).slave i with
          DCprevious := 0 }).slave i).group = (c.slave i).group := by
      rw [set_self, set_of_ne hi.ne']
    constructor
    · exact congrArg (Function.update c.groupHasdc · true) hgroup
    · exact congrArg (Function.update c.groupDCnext · i) hgroup
  · exact ⟨rfl, rfl⟩

/-- A slave behind all that are linked is linked behind the last one. -/
theorem Linked.link (h : Linked start c l) (hi : ∀ k ∈ 0 :: l, k < i) :
  Linked start (c.link i) (l ++ [i])
  := by
  have hpos : 0 < i := hi 0 List.mem_cons_self
  have hlast : l.getLastD 0 < i := hi _ List.getLastD_mem_cons
  obtain ⟨s, hsnext, hsprevious, hslave⟩ := h.link_slave i
  have hnot : i ∉ 0 :: l := fun hmem => lt_irrefl i (hi i hmem)
  have hlinks := h.others i hnot
  have hnext : ∀ k, k ≠ l.getLastD 0 → ((c.link i).slave k).DCnext = (c.slave k).DCnext := by
    intro k hk
    rw [hslave]
    refine (apply_set DcSlave.DCnext ?_).trans (congrArg DcSlave.DCnext (set_of_ne hk _ _))
    intro _
    rfl
  have hprevious : ∀ k, k ≠ i → ((c.link i).slave k).DCprevious = (c.slave k).DCprevious := by
    intro k hki
    rw [hslave, set_of_ne hki]
    apply apply_set DcSlave.DCprevious
    rintro rfl
    apply hsprevious
  constructor
  case found =>
    rw [link_hasdc hpos]
    cases l with
    | nil => rfl
    | cons a l => rfl
  case last =>
    rw [List.getLastD_concat]
    rfl
  case chain =>
    rw [← List.cons_append]
    apply List.IsChain.append
    · apply h.chain.imp_of_mem_imp
      rintro a b ha hb ⟨hab, hanext, hbprevious⟩
      have hble := h.le_last hb
      refine ⟨hab, ?_, ?_⟩
      · rw [hnext a (by omega), hanext]
      · rw [hprevious b (by omega), hbprevious]
    · apply List.isChain_singleton
    · intro a ha b hb
      have hbi : b = i := by simpa using hb.symm
      have hal : a = l.getLastD 0 := by
        cases l with
        | nil => simpa using ha.symm
        | cons x l => simpa [List.getLast?_cons] using ha.symm
      subst hbi hal
      refine ⟨hlast, ?_, ?_⟩
      · rw [hslave, set_of_ne hlast.ne, set_self, hsnext]
      · rw [hslave, set_self]
  case lastNext =>
    rw [List.getLastD_concat, hnext i hlast.ne']
    exact congrArg (·.2.1) hlinks
  case previous => exact (hprevious 0 hpos.ne).trans h.previous
  case groupHasdc =>
    rw [(link_group hpos c).1, h.found, h.groupHasdc]
    cases l with
    | nil => exact congrArg (Function.update _ · true) (congrArg (·.2.2.2) hlinks)
    | cons a l => rfl
  case groupDCnext =>
    rw [(link_group hpos c).2, h.found, h.groupDCnext]
    cases l with
    | nil => exact congrArg (Function.update _ · i) (congrArg (·.2.2.2) hlinks)
    | cons a l => rfl
  case others =>
    intro k hk
    have hki : k ≠ i := by
      rintro rfl
      apply hk
      exact List.mem_cons_of_mem _ (List.mem_append_right _ (List.mem_singleton_self k))
    have hkl : k ∉ 0 :: l := by
      intro hmem
      apply hk
      rcases List.mem_cons.mp hmem with rfl | hmem
      · exact List.mem_cons_self
      · exact List.mem_cons_of_mem _ (List.mem_append_left _ hmem)
    have hklast : k ≠ l.getLastD 0 := by
      rintro rfl
      exact hkl List.getLastD_mem_cons
    rw [hslave, set_of_ne hki, set_of_ne hklast]
    apply h.others k hkl

/-- Only linking changes the links of a slave with a clock. -/
theorem keepsLinks_measure (c : DcContext) (bus : DcBus) (mastertime : UInt64) (i : ℕ) :
  KeepsLinks (c.link i) (c.measure bus mastertime i)
  := by
  have henter : KeepsLinks (c.link i) (((c.link i).latch bus mastertime i).enter i) := by
    have hlatch : KeepsLinks (c.link i) ((c.link i).latch bus mastertime i) :=
      ⟨fun _ => apply_set linksTo fun _ => rfl, rfl, rfl, rfl⟩
    exact hlatch.trans (keepsLinks_set rfl)
  rw [measure]
  dsimp only
  split
  · apply henter.trans
    refine ⟨?_, rfl, rfl, rfl⟩
    intro k
    simp only [propagate]
    refine (apply_set linksTo ?_).trans (apply_set linksTo ?_)
    · intro _
      rfl
    · intro _
      rfl
  · exact henter

theorem keepsLinks_pass (i : ℕ) :
  KeepsLinks c (c.pass i)
  := by
  rw [pass]
  dsimp only
  split
  · refine ⟨?_, rfl, rfl, rfl⟩
    intro k
    refine (apply_set linksTo ?_).trans (apply_set linksTo ?_)
    · intro _
      rfl
    · intro _
      rfl
  · exact ⟨fun _ => apply_set linksTo fun _ => rfl, rfl, rfl, rfl⟩

/-- A slave behind all that are linked is looked at, and linked if it has a clock. -/
theorem Linked.configure (bus : DcBus) (mastertime : UInt64) (h : Linked start c l)
    (hi : ∀ k ∈ 0 :: l, k < i) :
  Linked start (c.configure bus mastertime i) (if (c.slave i).hasdc then l ++ [i] else l)
    ∧ ∀ k, 0 < k → ((c.configure bus mastertime i).slave k).hasdc = (c.slave k).hasdc
  := by
  have hset : KeepsLinks c (c.set i { c.slave i with consumedports := (c.slave i).activeports }) :=
    keepsLinks_set rfl
  rw [DcContext.configure]
  dsimp only
  rw [hset.hasdc]
  split
  · have hkeeps := keepsLinks_measure (c.set i { c.slave i with
      consumedports := (c.slave i).activeports }) bus mastertime i
    refine ⟨((h.of_keepsLinks hset).link hi).of_keepsLinks hkeeps, ?_⟩
    intro k hk
    rw [hkeeps.hasdc]
    refine (link_apply DcSlave.hasdc hk ?_).trans (hset.hasdc k)
    intro _ _ _
    rfl
  · have hkeeps := hset.trans (keepsLinks_pass i)
    exact ⟨h.of_keepsLinks hkeeps, fun k _ => hkeeps.hasdc k⟩

end DcContext

/-- `ec_configdc` links exactly the slaves with a clock, in the order of their positions and in both
directions, and tells whether there is one.  The group of the first one begins with it, nothing new
is behind the last one, and all other links are as they were. -/
theorem ecxConfigdc_linked (bus : DcBus) (mastertime hrt : UInt64) (slavecount : ℕ)
    (slave : ℕ → DcSlave) (groupHasdc : ℕ → Bool) (groupDCnext : ℕ → ℕ) :
  DcContext.Linked (.start slave groupHasdc groupDCnext hrt)
    (ecxConfigdc bus mastertime slavecount slave groupHasdc groupDCnext hrt)
    ((List.range' 1 slavecount).filter fun k => (slave k).hasdc)
  := by
  rw [ecxConfigdc]
  suffices hrun : DcContext.Linked (.start slave groupHasdc groupDCnext hrt)
        ((List.range' 1 slavecount).foldl (DcContext.configure bus mastertime)
          (.start slave groupHasdc groupDCnext hrt))
        ((List.range' 1 slavecount).filter fun k => (slave k).hasdc)
      ∧ ∀ k, 0 < k → (((List.range' 1 slavecount).foldl (DcContext.configure bus mastertime)
        (.start slave groupHasdc groupDCnext hrt)).slave k).hasdc = (slave k).hasdc from hrun.1
  induction slavecount with
  | zero =>
      constructor
      · constructor
        case chain => exact List.isChain_singleton 0
        all_goals intros; rfl
      · intro k hk
        exact congrArg DcSlave.hasdc (Function.update_of_ne hk.ne' _ _)
  | succ n ih =>
      obtain ⟨hlinked, hhasdc⟩ := ih
      rw [List.range'_concat, List.foldl_concat, List.filter_append]
      have hi : ∀ k ∈ 0 :: (List.range' 1 n).filter fun k => (slave k).hasdc, k < 1 + 1 * n := by
        intro k hk
        rcases List.mem_cons.mp hk with rfl | hk
        · omega
        · have := List.mem_range'_1.mp (List.mem_of_mem_filter hk)
          omega
      obtain ⟨hnext, hsame⟩ := hlinked.configure bus mastertime hi
      rw [hhasdc _ (by omega)] at hnext
      refine ⟨?_, fun k hk => (hsame k hk).trans (hhasdc k hk)⟩
      rw [List.filter_singleton]
      cases hdc : (slave (1 + 1 * n)).hasdc with
      | true => rwa [hdc, if_pos rfl] at hnext
      | false =>
          rw [hdc, if_neg Bool.false_ne_true] at hnext
          rwa [cond_false, List.append_nil]

end EthercatMaster
