import Mathlib.Data.Finset.Card
import Mathlib.Data.Fintype.Card
import Mathlib.Data.Finset.Lattice.Basic
import EthercatMaster.Host.Listener

/-!
# The descriptor sets

The server keeps the descriptors of its sockets in three sets, with their number and a bound on
them.  The sets agree with the open sockets as long as no callback of the interface closes a
client: `tcp_server_remove_listener_socket` closes the least socket with the address and leaves it
in `fdset_clients`.
-/

namespace EthercatMaster

namespace TcpServer

/-- The descriptor sets of the server, their number and their bound agree with each other and with
the open sockets. -/
structure SocketSets (s : TcpServer) : Prop where
  disjoint : Disjoint s.fdsetListners s.fdsetClients
  all : s.fdsetAll = s.fdsetListners ∪ s.fdsetClients
  opened : ∀ fd ∈ s.fdsetAll, s.sockets fd ≠ none
  maxFd : ∀ fd ∈ s.fdsetAll, (fd.val : ℤ) ≤ s.maxFd
  numOfSocket : s.numOfSocket.toNat = s.fdsetAll.card
  idle : s.numOfSocket = 0 → ∀ fd, s.sockets fd = none

/-- A step closes no client by its address: when the interface goes down, each client connected at
its address has a larger descriptor than a socket that listens there. -/
def Spares (s : TcpServer) : ServerEvent → Prop
  | .netifDown => ∀ fd, s.Connected s.ipAddress fd → ∃ fd' < fd, s.Listens s.ipAddress fd'
  | _ => True

/-! ### The number of sockets -/

/-- `num_of_socket` is the number of descriptors in `fdset_all`. -/
def Counted (s : TcpServer) : Prop :=
  s.numOfSocket.toNat = s.fdsetAll.card

theorem card_fdsetAll_le (s : TcpServer) :
  s.fdsetAll.card ≤ 10
  := by
  apply s.fdsetAll.card_le_univ.trans
  rw [Fintype.card_fin, mempNumNetconn]

/-- A socket is opened and counted. -/
theorem Counted.insert {s s' : TcpServer} (h : s.Counted) {fd : Fd} (hfd : fd ∉ s.fdsetAll)
    (hall : s'.fdsetAll = insert fd s.fdsetAll) (hnum : s'.numOfSocket = s.numOfSocket + 1) :
  s'.Counted
  := by
  have hcard := s.card_fdsetAll_le
  rw [Counted] at h ⊢
  rw [hall, Finset.card_insert_of_notMem hfd, hnum, UInt32.toNat_add, h, UInt32.toNat_one]
  omega

theorem Counted.pos {s : TcpServer} (h : s.Counted) {fd : Fd} (hfd : fd ∈ s.fdsetAll) :
  0 < s.numOfSocket
  := by
  rw [UInt32.lt_iff_toNat_lt, h]
  apply Finset.card_pos.mpr ⟨fd, hfd⟩

/-- A socket is closed and no longer counted. -/
theorem Counted.erase {s s' : TcpServer} (h : s.Counted) {fd : Fd} (hfd : fd ∈ s.fdsetAll)
    (hall : s'.fdsetAll = s.fdsetAll.erase fd) (hnum : s'.numOfSocket = s.numOfSocket - 1) :
  s'.Counted
  := by
  have hone : (1 : UInt32) ≤ s.numOfSocket := by
    have hpos := h.pos hfd
    rw [UInt32.lt_iff_toNat_lt] at hpos
    rw [UInt32.le_iff_toNat_le]
    exact hpos
  rw [Counted] at h ⊢
  rw [hall, Finset.card_erase_of_mem hfd, hnum, UInt32.toNat_sub_of_le _ _ hone, h]
  rfl

theorem Counted.step {s : TcpServer} (h : s.Counted) (hs : s.Consistent) (e : ServerEvent) :
  (s.step e).Counted
  := by
  have hall : ∀ {fd}, s.sockets fd = none → fd ∉ s.fdsetAll := fun hfree hmem =>
    (hs.all _).mp hmem hfree
  cases e with
  | address ipAddress => exact h
  | netifUp fd =>
      rw [TcpServer.step]
      unfold tcpServerAddListenerSocket tcpServerCreateNewListnerSocket
      split
      · exact h
      · split
        · exact h
        · rename_i hcreate
          split at hcreate
          · rename_i hfree
            cases hcreate
            apply h.insert (hall hfree) rfl rfl
          · cases hcreate
  | netifDown =>
      rw [TcpServer.step]
      unfold tcpServerRemoveListenerSocket
      split
      · exact h
      · rename_i fd hget
        have hopen : s.sockets fd ≠ none := by
          intro hnone
          have hip := (getSocket_some hget).1
          rw [hnone] at hip
          cases hip
        apply h.erase ((hs.all fd).mpr hopen) rfl rfl
  | ready fd accepted recv =>
      rw [TcpServer.step]
      split
      · unfold tcpServerHandleListnerSocket
        split
        · split
          · rename_i hfree
            apply h.insert (hall hfree.1) rfl rfl
          · exact h
        · exact h
      · split
        · unfold tcpServerHandleConnectedSocket
          split
          · exact h
          · exact h
          · rename_i socket hsocket
            have hmem : fd ∈ s.fdsetAll := by
              rw [hs.all, hsocket]
              apply Option.some_ne_none
            apply h.erase hmem rfl (if_pos (h.pos hmem))
          · exact h
        · exact h

theorem counted_before (es : List ServerEvent) (i : ℕ) :
  (machine.before es i).Counted
  := by
  have hboth : ∀ s e, Consistent s ∧ Counted s → (s.step e).Consistent ∧ (s.step e).Counted :=
    fun s e h => ⟨h.1.step e, h.2.step h.1 e⟩
  exact (machine.invariant_before (P := fun s => s.Consistent ∧ s.Counted)
    ⟨consistent_init, rfl⟩ hboth es i).2

/-! ### The clients -/

/-- Every descriptor in `fdset_clients` is that of a client. -/
def ClientsOpen (s : TcpServer) : Prop :=
  ∀ fd ∈ s.fdsetClients, ∃ ipAddress, s.Connected ipAddress fd

/-- The sets agree with the open sockets exactly if `fdset_clients` does. -/
theorem Consistent.socketSets_step_iff {s : TcpServer} (h : s.Consistent) (hcounted : s.Counted) :
  s.SocketSets ↔ s.ClientsOpen
  := by
  constructor
  · intro hsets fd hfd
    have hall : fd ∈ s.fdsetAll := by
      rw [hsets.all]
      apply Finset.mem_union_right _ hfd
    obtain ⟨⟨kind, ipAddress⟩, hsocket⟩ := Option.ne_none_iff_exists'.mp (hsets.opened fd hall)
    cases kind with
    | listner =>
        have hlistner := (h.listners fd).mpr ⟨ipAddress, hsocket⟩
        exact absurd hfd (Finset.disjoint_left.mp hsets.disjoint hlistner)
    | client => exact ⟨ipAddress, hsocket⟩
  · intro hclients
    constructor
    · rw [Finset.disjoint_left]
      intro fd hlistner hclient
      obtain ⟨ipAddress, hfd⟩ := hclients fd hclient
      obtain ⟨ipAddress', hfd'⟩ := (h.listners fd).mp hlistner
      rw [hfd] at hfd'
      cases hfd'
    · ext fd
      rw [h.all, Finset.mem_union]
      constructor
      · intro hopen
        obtain ⟨⟨kind, ipAddress⟩, hsocket⟩ := Option.ne_none_iff_exists'.mp hopen
        cases kind with
        | listner => exact .inl ((h.listners fd).mpr ⟨ipAddress, hsocket⟩)
        | client => exact .inr (h.clients fd ipAddress hsocket)
      · rintro (hmem | hmem) hnone
        · obtain ⟨ipAddress, hfd⟩ := (h.listners fd).mp hmem
          cases hnone.symm.trans hfd
        · obtain ⟨ipAddress, hfd⟩ := hclients fd hmem
          cases hnone.symm.trans hfd
    · intro fd hmem
      exact (h.all fd).mp hmem
    · intro fd hmem
      apply h.maxFd fd ((h.all fd).mp hmem)
    · exact hcounted
    · intro hzero fd
      by_contra hopen
      have hpos := hcounted.pos ((h.all fd).mpr hopen)
      rw [hzero] at hpos
      exact absurd hpos (by decide)

/-- What the callback of an interface that goes down does to the clients. -/
theorem Consistent.clientsOpen_netifDown {s : TcpServer} (h : s.Consistent) (hs : s.ClientsOpen) :
  (s.step .netifDown).ClientsOpen ↔ s.Spares .netifDown
  := by
  have hclients : (s.step .netifDown).fdsetClients = s.fdsetClients := by
    rw [TcpServer.step]
    unfold tcpServerRemoveListenerSocket
    split <;> rfl
  constructor
  · intro hafter fd hfd
    cases hget : tcpServerGetSocketByIpAddress s.ipAddress s with
    | none => exact absurd (Or.inr hfd) (h.not_listens hget fd)
    | some fd' =>
        rcases listens_or_connected (getSocket_some hget).1 with hlistens | hconnected
        · use fd'
          constructor
          · apply lt_of_le_of_ne (h.getSocket_le hget (Or.inr hfd))
            rintro rfl
            cases hlistens.symm.trans hfd
          · exact hlistens
        · have hmem := h.clients fd' s.ipAddress hconnected
          obtain ⟨ipAddress, hopen⟩ := hafter fd' (hclients ▸ hmem)
          have hsockets : (s.step .netifDown).sockets = Function.update s.sockets fd' none :=
            (removeListenerSocket_spec hget).sockets
          rw [Connected, hsockets, Function.update_self] at hopen
          cases hopen
  · intro hspares fd hmem
    rw [hclients] at hmem
    obtain ⟨ipAddress, hfd⟩ := hs fd hmem
    exact ⟨ipAddress, (h.serves_netifDown.mpr hspares).2 fd ipAddress hfd⟩

theorem ClientsOpen.opens {s s' : TcpServer} {fd : Fd} {socket : Socket} (h : s.ClientsOpen)
    (hs : s.Opens s' fd socket) :
  s'.ClientsOpen
  := by
  obtain ⟨kind, ipAddress⟩ := socket
  have hold : ∀ fd' ∈ s.fdsetClients, ∃ ipAddress, s'.Connected ipAddress fd' := by
    intro fd' hmem
    obtain ⟨ip, hfd'⟩ := h fd' hmem
    use ip
    rw [Connected, hs.sockets, Function.update_of_ne]
    · exact hfd'
    · rintro rfl
      cases hs.free.symm.trans hfd'
  intro fd' hmem
  rw [hs.clients] at hmem
  split at hmem
  · rename_i hkind
    rcases Finset.mem_insert.mp hmem with rfl | hmem
    · use ipAddress
      rw [Connected, hs.sockets, Function.update_self, ← hkind]
    · apply hold fd' hmem
  · apply hold fd' hmem

theorem ClientsOpen.closes {s s' : TcpServer} {fd : Fd} (h : s.ClientsOpen)
    (hsockets : s'.sockets = Function.update s.sockets fd none)
    (hclients : s'.fdsetClients = s.fdsetClients.erase fd) :
  s'.ClientsOpen
  := by
  intro fd' hmem
  rw [hclients, Finset.mem_erase] at hmem
  obtain ⟨ipAddress, hfd'⟩ := h fd' hmem.2
  use ipAddress
  rw [Connected, hsockets, Function.update_of_ne hmem.1]
  exact hfd'

theorem ClientsOpen.netifUp {s : TcpServer} (h : s.ClientsOpen) (fd : Fd) :
  (s.step (.netifUp fd)).ClientsOpen
  := by
  rw [step]
  cases hget : tcpServerGetSocketByIpAddress s.ipAddress s with
  | some fd' =>
      rw [addListenerSocket_of_some fd hget]
      exact h
  | none =>
      rcases eq_or_ne (s.sockets fd) none with hfree | hopen
      · apply h.opens (addListenerSocket_spec fd s hfree hget)
      · simp only [tcpServerAddListenerSocket, hget, tcpServerCreateNewListnerSocket,
          if_neg hopen]
        exact h

theorem ClientsOpen.ready {s : TcpServer} (h : s.ClientsOpen) (fd : Fd) (accepted : Option Fd)
    (recv : Recv) :
  (s.step (.ready fd accepted recv)).ClientsOpen
  := by
  rw [step]
  split
  · unfold tcpServerHandleListnerSocket
    split
    · rename_i socket fd' hsocket
      split
      · rename_i hfree
        apply @ClientsOpen.opens s _ fd' ⟨.client, socket.ipAddress⟩ h
        refine ⟨hfree.1, ?_, rfl, s.max_maxFd fd', rfl, rfl, rfl⟩
        rintro ⟨⟩
      · exact h
    · exact h
  · split
    · unfold tcpServerHandleConnectedSocket
      split
      · exact h
      · exact h
      · apply h.closes rfl rfl
      · exact h
    · exact h

/-- A step keeps `fdset_clients` to the clients exactly if it spares them. -/
theorem Consistent.clientsOpen_step {s : TcpServer} (h : s.Consistent) (hs : s.ClientsOpen)
    (e : ServerEvent) :
  (s.step e).ClientsOpen ↔ s.Spares e
  := by
  cases e with
  | netifDown => exact h.clientsOpen_netifDown hs
  | address ipAddress => exact iff_of_true hs trivial
  | netifUp fd => exact iff_of_true (hs.netifUp fd) trivial
  | ready fd accepted recv => exact iff_of_true (hs.ready fd accepted recv) trivial

/-- The sets agree with the open sockets in every state of a run exactly if no step of it closes a
client by its address. -/
theorem socketSets_iff (es : List ServerEvent) :
  (∀ i ≤ es.length, (machine.before es i).SocketSets)
    ↔ ∀ i e, es[i]? = some e → (machine.before es i).Spares e
  := by
  have hsets : ∀ i, (machine.before es i).SocketSets ↔ (machine.before es i).ClientsOpen :=
    fun i => (consistent_before es i).socketSets_step_iff (counted_before es i)
  constructor
  · intro h i e he
    have hi : i < es.length := (List.getElem?_eq_some_iff.mp he).1
    rw [← (consistent_before es i).clientsOpen_step ((hsets i).mp (h i hi.le))]
    have hnext := (hsets (i + 1)).mp (h (i + 1) hi)
    rw [machine.before_succ he] at hnext
    exact hnext
  · intro h i _
    rw [hsets]
    have hboth : ∀ (s : TcpServer) e, s.Spares e → s.Consistent ∧ s.ClientsOpen →
        (s.step e).Consistent ∧ (s.step e).ClientsOpen :=
      fun s e hspares hs => ⟨hs.1.step e, (hs.1.clientsOpen_step hs.2 e).mpr hspares⟩
    exact (machine.invariant_of (P := fun s => s.Consistent ∧ s.ClientsOpen)
      ⟨consistent_init, by simp [ClientsOpen, machine, init]⟩ hboth h i).2

namespace LinkFlap

/-- The interface comes up and goes down again while the client is connected. -/
def twice : List ServerEvent :=
  again ++ [.netifDown]

/-- The client is closed and stays in `fdset_clients`. -/
theorem not_socketSets_twice :
  ¬ ∀ i ≤ twice.length, (machine.before twice i).SocketSets
  := by
  intro h
  have hmem : 1 ∈ (machine.before twice 6).fdsetClients := by decide +kernel
  have hclosed : 1 ∉ (machine.before twice 6).fdsetAll := by decide +kernel
  apply hclosed
  rw [(h 6 (by decide)).all]
  apply Finset.mem_union_right _ hmem

end LinkFlap

end TcpServer

end EthercatMaster
