import EthercatMaster.Library.Forest
import Mathlib.Data.UInt
import Mathlib.Tactic.IntervalCases

/-!
# The topology of the bus

The slaves are found in the order in which a frame passes them.  `ec_config_init` reads from each
which of its ports are open and have a link, and searches backwards for the slave that it hangs on,
from the numbers of links alone.
-/

namespace EthercatMaster

/-! ### Links -/

/-- The bits of the DL status that tell of a port, and their value if it is open with a link. -/
def dlstatPort : ℕ → UInt16 × UInt16
  | 0 => (0x0300, 0x0200)
  | 1 => (0x0c00, 0x0800)
  | 2 => (0x3000, 0x2000)
  | _ => (0xc000, 0x8000)

/-- The port is open and communication is established. -/
def PortOpen (dlstat : UInt16) (port : ℕ) : Prop :=
  dlstat &&& (dlstatPort port).1 = (dlstatPort port).2

instance (dlstat : UInt16) (port : ℕ) : Decidable (PortOpen dlstat port) :=
  inferInstanceAs (Decidable (_ = _))

/-- The bit of a port: `PORTM0` to `PORTM3`. -/
def portBit : ℕ → UInt8
  | 0 => 0x01
  | 1 => 0x02
  | 2 => 0x04
  | _ => 0x08

/-- The links of a slave as `ec_config_init` stores them: their number `topology`, and the bits
`activeports`. -/
structure Links where
  topology : UInt8
  activeports : UInt8
deriving DecidableEq, Repr

/-- A port is looked at. -/
def Links.look (dlstat : UInt16) (port : ℕ) (x : Links) : Links :=
  if PortOpen dlstat port then ⟨x.topology + 1, x.activeports ||| portBit port⟩ else x

/-- `ec_config_init`: the links of a slave from its DL status. -/
def linksOf (dlstat : UInt16) : Links :=
  [0, 1, 2, 3].foldl (fun x port => x.look dlstat port) ⟨0, 0⟩

/-! ### The search for the parent -/

/-- What a slave that is passed adds to the ends and splits. -/
def topocAdd (topology : UInt8) : ℤ :=
  if topology = 1 then -1 else if topology = 3 then 1 else if topology = 4 then 2 else 0

/-- `ec_config_init`: the search backwards from slave `slavec`. -/
def searchParent (topology : ℕ → UInt8) : ℕ → ℤ → ℕ
  | 0, _ => 0
  | slavec + 1, topoc =>
      let topoc := topoc + topocAdd (topology (slavec + 1))
      if 0 ≤ topoc ∧ 1 < topology (slavec + 1) ∨ slavec + 1 = 1 then slavec + 1
      else searchParent topology slavec topoc

/-- `ec_config_init`: the parent of a slave. -/
def parentOf (topology : ℕ → UInt8) (slave : ℕ) : ℕ :=
  if 1 < slave then searchParent topology (slave - 1) 0 else 0

/-- How many ports are open. -/
def openPorts (dlstat : UInt16) : ℕ :=
  [0, 1, 2, 3].countP (PortOpen dlstat)

theorem openPorts_le (dlstat : UInt16) :
  openPorts dlstat ≤ 4
  := List.countP_le_length

theorem linksOf_topology (dlstat : UInt16) :
  (linksOf dlstat).topology = (openPorts dlstat).toUInt8
  := by
  simp only [linksOf, Links.look, openPorts, List.foldl_cons, List.foldl_nil, List.countP_cons,
    List.countP_nil]
  by_cases h0 : PortOpen dlstat 0
  all_goals by_cases h1 : PortOpen dlstat 1
  all_goals by_cases h2 : PortOpen dlstat 2
  all_goals by_cases h3 : PortOpen dlstat 3
  all_goals simp only [h0, h1, h2, h3, if_true, if_false, decide_true, decide_false]
  all_goals rfl

theorem topocAdd_of_degree {topology : UInt8} {degree : ℕ} (h : topology = (degree + 1).toUInt8)
    (hdegree : degree ≤ 3) :
  topocAdd topology = (degree : ℤ) - 1
  := by
  subst h
  interval_cases degree
  all_goals rfl

theorem one_lt_of_degree {topology : UInt8} {degree : ℕ} (h : topology = (degree + 1).toUInt8)
    (hdegree : degree ≤ 3) :
  1 < topology ↔ 0 < degree
  := by
  subst h
  interval_cases degree
  all_goals decide

/-- The search ends at the last slave before that has a child left. -/
theorem searchParent_eq {topology : ℕ → UInt8} {degree : ℕ → ℕ} {k q n : ℕ}
    (htopology : ∀ j, q ≤ j → j < k → topology j = (degree j + 1).toUInt8 ∧ degree j ≤ 3)
    (hq : 0 < q) (h : Forest.LastOpen degree k q) (hqn : q ≤ n) (hnk : n < k) :
  searchParent topology n (Forest.openings degree (n + 1) k) = q
  := by
  induction n with
  | zero => omega
  | succ n ih =>
      obtain ⟨htop, hdegree⟩ := htopology (n + 1) hqn hnk
      have hadd : Forest.openings degree (n + 1 + 1) k + topocAdd (topology (n + 1))
          = Forest.openings degree (n + 1) k := by
        rw [topocAdd_of_degree htop hdegree, Forest.openings_succ_bot hnk, add_comm]
      have hone := one_lt_of_degree htop hdegree
      rw [searchParent, hadd]
      rcases Nat.eq_or_lt_of_le hqn with rfl | hlt
      · rw [if_pos]
        left
        exact ⟨h.opens, hone.mpr h.degree_pos⟩
      · have hneg := h.last (n + 1) hlt hnk
        rw [if_neg (by omega)]
        apply ih (by omega) (by omega)

/-- The parents that are found are those of the tree of the slaves, if each slave has one open port
for each of its children and one more. -/
theorem parentOf_eq {α : Type*} (dlstat : ℕ → UInt16) {tree : Forest α} (hone : tree.count = 1)
    (hlinks : tree.Each Forest.numbering (fun p _ children =>
      openPorts (dlstat p.number) = children.count + 1) ⟨0, 1⟩) :
  tree.Each Forest.numbering (fun p _ _ =>
    parentOf (fun n => (linksOf (dlstat n)).topology) p.number = p.parent) ⟨0, 1⟩
  := by
  let degree : ℕ → ℕ := fun n => openPorts (dlstat n) - 1
  have hdegrees : Forest.HasDegrees degree ⟨0, 1⟩ tree := by
    apply hlinks.imp
    intro p _ children hopen
    apply Nat.sub_eq_of_eq_add hopen
  apply ((Forest.parent_of_degrees hdegrees Nat.zero_lt_one).and
    (Forest.each_number _ _)).imp
  rintro ⟨parent, number⟩ root children ⟨⟨hparent, hleft, hclosed⟩ | ⟨hparent, hlast⟩, hlow, hhigh⟩
  · -- the only root is the first slave
    dsimp only at hparent hleft hclosed hlow ⊢
    rw [hone] at hleft
    have hfirst : ¬ 1 < number := by
      intro hlt
      have := hclosed 1 le_rfl hlt
      omega
    rw [parentOf, if_neg hfirst, hparent]
  · dsimp only at hparent hlast hlow hhigh ⊢
    have hlt := hlast.lt
    obtain ⟨n, rfl⟩ := Nat.exists_eq_succ_of_ne_zero (Nat.ne_zero_of_lt hlt)
    rw [parentOf, if_pos (by omega), Nat.succ_sub_one,
      ← @Forest.openings_self degree (n + 1)]
    apply searchParent_eq _ hparent hlast (Nat.le_of_lt_succ hlt) (Nat.lt_succ_self n)
    intro j hj hjn
    obtain ⟨_, _, below, hopen⟩ := hlinks.exists_number (n := j) (by dsimp only; omega)
      (by dsimp only; omega)
    dsimp only at hopen
    have hle := openPorts_le (dlstat j)
    have hdegree : degree j = below.count := Nat.sub_eq_of_eq_add hopen
    refine ⟨?_, ?_⟩
    · rw [linksOf_topology, hopen, hdegree]
    · omega

/-- The fourth slave hangs on the first one, behind a branch of two slaves. -/
theorem parentOf_eq_split :
  parentOf (fun n =>
    (linksOf (if n = 1 then 0x8a00 else if n = 2 then 0x0a00 else 0x0200)).topology) 4 = 1
  := by
  have h := parentOf_eq (fun n => if n = 1 then 0x8a00 else if n = 2 then 0x0a00 else 0x0200)
    (show (Forest.cons () (.cons () (.cons () .nil .nil) (.cons () .nil .nil)) .nil).count = 1 from
      rfl)
    ⟨by decide, ⟨by decide, ⟨by decide, trivial, trivial⟩, by decide, trivial, trivial⟩, trivial⟩
  exact h.2.1.2.2.1

end EthercatMaster
