import EthercatMaster.Host.Server

/-!
# Listening sockets

After the interface came up the server listens at its address, and after it went down it does not
and has closed no connection of a client, as long as `tcp_server_get_socket_by_ip_address`, which
looks at all sockets, does not find a client.
-/

namespace EthercatMaster

namespace TcpServer

/-! ### What a step does to the sockets -/

/-- No socket is opened or closed. -/
structure Keeps (s s' : TcpServer) : Prop where
  sockets : s'.sockets = s.sockets
  maxFd : s'.maxFd = s.maxFd
  listners : s'.fdsetListners = s.fdsetListners
  clients : s'.fdsetClients = s.fdsetClients
  all : s'.fdsetAll = s.fdsetAll

/-- A socket is opened, and a listening one only if no other has its address. -/
structure Opens (s s' : TcpServer) (fd : Fd) (socket : Socket) : Prop where
  free : s.sockets fd = none
  alone : socket.kind = .listner →
    ∀ fd', (fd'.val : ℤ) ≤ s.maxFd → (s.sockets fd').map Socket.ipAddress ≠ some socket.ipAddress
  sockets : s'.sockets = Function.update s.sockets fd (some socket)
  maxFd : s'.maxFd = max s.maxFd fd.val
  listners : s'.fdsetListners =
    if socket.kind = .listner then insert fd s.fdsetListners else s.fdsetListners
  clients : s'.fdsetClients =
    if socket.kind = .client then insert fd s.fdsetClients else s.fdsetClients
  all : s'.fdsetAll = insert fd s.fdsetAll

/-- A socket is closed. -/
structure Closes (s s' : TcpServer) (fd : Fd) : Prop where
  sockets : s'.sockets = Function.update s.sockets fd none
  maxFd : s'.maxFd = s.maxFd
  listners : s'.fdsetListners = s.fdsetListners.erase fd
  clients : s.fdsetClients.erase fd ⊆ s'.fdsetClients
  all : s'.fdsetAll = s.fdsetAll.erase fd

/-- What a step does to the sockets. -/
inductive Change (s s' : TcpServer) : Prop where
  | keeps (h : s.Keeps s')
  | opens (fd : Fd) (socket : Socket) (h : s.Opens s' fd socket)
  | closes (fd : Fd) (h : s.Closes s' fd)

theorem Keeps.refl (s : TcpServer) :
  s.Keeps s
  := ⟨rfl, rfl, rfl, rfl, rfl⟩

theorem max_maxFd (s : TcpServer) (fd : Fd) :
  (if (fd.val : ℤ) > s.maxFd then (fd.val : ℤ) else s.maxFd) = max s.maxFd fd.val
  := by
  split <;> omega

theorem getSocket_none {s : TcpServer} {ipAddress : UInt32}
    (h : tcpServerGetSocketByIpAddress ipAddress s = none) (fd : Fd)
    (hfd : (fd.val : ℤ) ≤ s.maxFd) :
  (s.sockets fd).map Socket.ipAddress ≠ some ipAddress
  := by
  intro hip
  rw [tcpServerGetSocketByIpAddress] at h
  have := Fin.eq_false_of_find?_eq_none h fd
  simp [hfd, hip] at this

theorem getSocket_some {s : TcpServer} {ipAddress : UInt32} {fd : Fd}
    (h : tcpServerGetSocketByIpAddress ipAddress s = some fd) :
  (s.sockets fd).map Socket.ipAddress = some ipAddress
    ∧ ∀ fd' < fd, (fd'.val : ℤ) ≤ s.maxFd →
      (s.sockets fd').map Socket.ipAddress ≠ some ipAddress
  := by
  rw [tcpServerGetSocketByIpAddress] at h
  obtain ⟨hfd, hmin⟩ := Fin.find?_eq_some_iff.mp h
  constructor
  · simp at hfd
    simpa using hfd.2
  · intro fd' hlt hle hip
    have := hmin fd' hlt
    simp [hle, hip] at this

/-- `tcp_server_add_listener_socket` opens a listening socket if no socket has the address. -/
theorem addListenerSocket_spec (fd : Fd) (s : TcpServer) (hfree : s.sockets fd = none)
    (h : tcpServerGetSocketByIpAddress s.ipAddress s = none) :
  s.Opens (tcpServerAddListenerSocket fd s) fd ⟨.listner, s.ipAddress⟩
  := by
  simp only [tcpServerAddListenerSocket, h, tcpServerCreateNewListnerSocket, if_pos hfree]
  exact ⟨hfree, fun _ => getSocket_none h, rfl, s.max_maxFd fd, rfl, rfl, rfl⟩

/-- `tcp_server_add_listener_socket` does nothing if a socket has the address. -/
theorem addListenerSocket_of_some (fd : Fd) {s : TcpServer} {fd' : Fd}
    (h : tcpServerGetSocketByIpAddress s.ipAddress s = some fd') :
  tcpServerAddListenerSocket fd s = s
  := by
  simp only [tcpServerAddListenerSocket, h]

/-- `tcp_server_remove_listener_socket` closes the socket that is found. -/
theorem removeListenerSocket_spec {s : TcpServer} {fd : Fd}
    (h : tcpServerGetSocketByIpAddress s.ipAddress s = some fd) :
  s.Closes (tcpServerRemoveListenerSocket s) fd
  := by
  simp only [tcpServerRemoveListenerSocket, h]
  exact ⟨rfl, rfl, rfl, Finset.erase_subset _ _, rfl⟩

/-- `tcp_server_remove_listener_socket` does nothing if no socket is found. -/
theorem removeListenerSocket_of_none {s : TcpServer}
    (h : tcpServerGetSocketByIpAddress s.ipAddress s = none) :
  tcpServerRemoveListenerSocket s = s
  := by
  simp only [tcpServerRemoveListenerSocket, h]

theorem handleListnerSocket_change (listner : Fd) (accepted : Option Fd) (s : TcpServer) :
  s.Change (tcpServerHandleListnerSocket listner accepted s)
  := by
  unfold tcpServerHandleListnerSocket
  split
  · rename_i socket fd hsocket
    split
    · rename_i h
      apply Change.opens fd ⟨.client, socket.ipAddress⟩
      exact ⟨h.1, nofun, rfl, s.max_maxFd fd, rfl, rfl, rfl⟩
    · apply Change.keeps (Keeps.refl s)
  · apply Change.keeps (Keeps.refl s)

theorem handleConnectedSocket_change {fd : Fd} (recv : Recv) {s : TcpServer}
    (h : fd ∉ s.fdsetListners) :
  s.Change (tcpServerHandleConnectedSocket fd recv s).2
  := by
  unfold tcpServerHandleConnectedSocket
  split
  · apply Change.keeps (Keeps.refl s)
  · apply Change.keeps (Keeps.refl s)
  · apply Change.closes fd
    exact ⟨rfl, rfl, (Finset.erase_eq_of_notMem h).symm, subset_rfl, rfl⟩
  · apply Change.keeps
    exact ⟨rfl, rfl, rfl, rfl, rfl⟩

theorem step_change (s : TcpServer) (e : ServerEvent) :
  s.Change (s.step e)
  := by
  cases e with
  | address ipAddress => exact Change.keeps ⟨rfl, rfl, rfl, rfl, rfl⟩
  | netifUp fd =>
      show s.Change (tcpServerAddListenerSocket fd s)
      cases h : tcpServerGetSocketByIpAddress s.ipAddress s with
      | some fd' =>
          rw [addListenerSocket_of_some fd h]
          apply Change.keeps (Keeps.refl s)
      | none =>
          by_cases hfree : s.sockets fd = none
          · apply Change.opens fd _ (addListenerSocket_spec fd s hfree h)
          · have heq : tcpServerAddListenerSocket fd s = s := by
              simp only [tcpServerAddListenerSocket, h, tcpServerCreateNewListnerSocket,
                if_neg hfree]
            rw [heq]
            apply Change.keeps (Keeps.refl s)
  | netifDown =>
      show s.Change (tcpServerRemoveListenerSocket s)
      cases h : tcpServerGetSocketByIpAddress s.ipAddress s with
      | some fd => apply Change.closes fd (removeListenerSocket_spec h)
      | none =>
          rw [removeListenerSocket_of_none h]
          apply Change.keeps (Keeps.refl s)
  | ready fd accepted recv =>
      rw [step]
      split
      · apply handleListnerSocket_change
      · split
        · apply handleConnectedSocket_change
          assumption
        · apply Change.keeps (Keeps.refl s)

/-! ### The invariant -/

/-- The descriptor sets of the server are those of the open sockets, up to descriptors left in
`fdset_clients`, and no two listening sockets have the same address. -/
structure Consistent (s : TcpServer) : Prop where
  listners : ∀ fd, fd ∈ s.fdsetListners ↔ ∃ ipAddress, s.sockets fd = some ⟨.listner, ipAddress⟩
  clients : ∀ fd ipAddress, s.sockets fd = some ⟨.client, ipAddress⟩ → fd ∈ s.fdsetClients
  all : ∀ fd, fd ∈ s.fdsetAll ↔ s.sockets fd ≠ none
  maxFd : ∀ fd, s.sockets fd ≠ none → (fd.val : ℤ) ≤ s.maxFd
  unique : ∀ fd fd' ipAddress, s.sockets fd = some ⟨.listner, ipAddress⟩ →
    s.sockets fd' = some ⟨.listner, ipAddress⟩ → fd = fd'

theorem Consistent.keeps {s s' : TcpServer} (h : s.Consistent) (hs : s.Keeps s') :
  s'.Consistent
  := by
  constructor
  · rw [hs.listners, hs.sockets]
    apply h.listners
  · rw [hs.clients, hs.sockets]
    apply h.clients
  · rw [hs.all, hs.sockets]
    apply h.all
  · rw [hs.maxFd, hs.sockets]
    apply h.maxFd
  · rw [hs.sockets]
    apply h.unique

theorem Consistent.opens {s s' : TcpServer} {fd : Fd} {socket : Socket} (h : s.Consistent)
    (hs : s.Opens s' fd socket) :
  s'.Consistent
  := by
  obtain ⟨kind, ipAddress⟩ := socket
  constructor
  · intro fd'
    rw [hs.listners, hs.sockets]
    rcases eq_or_ne fd' fd with rfl | hne
    · cases kind with
      | listner => simp
      | client => simp [h.listners, hs.free]
    · rw [Function.update_of_ne hne, ← h.listners]
      split
      · simp [hne]
      · rfl
  · intro fd' ip hfd'
    rw [hs.clients]
    rw [hs.sockets] at hfd'
    rcases eq_or_ne fd' fd with rfl | hne
    · rw [Function.update_self, Option.some.injEq, Socket.mk.injEq] at hfd'
      simp [hfd'.1]
    · rw [Function.update_of_ne hne] at hfd'
      have := h.clients fd' ip hfd'
      split
      · apply Finset.mem_insert_of_mem this
      · apply this
  · intro fd'
    rw [hs.all, hs.sockets, Finset.mem_insert, h.all]
    rcases eq_or_ne fd' fd with rfl | hne
    · simp
    · simp [hne]
  · intro fd' hfd'
    rw [hs.maxFd]
    rw [hs.sockets] at hfd'
    rcases eq_or_ne fd' fd with rfl | hne
    · apply le_max_right
    · rw [Function.update_of_ne hne] at hfd'
      apply le_max_of_le_left (h.maxFd fd' hfd')
  · intro fd₁ fd₂ ip h₁ h₂
    rw [hs.sockets] at h₁ h₂
    -- a second socket with the address would have been found
    have key : ∀ {fd'}, fd' ≠ fd → s.sockets fd' = some ⟨.listner, ip⟩ →
        (⟨kind, ipAddress⟩ : Socket) ≠ ⟨.listner, ip⟩ := by
      intro fd' hne hfd' heq
      obtain ⟨rfl, rfl⟩ := Socket.mk.injEq .. ▸ heq
      apply hs.alone rfl fd' (h.maxFd fd' (by simp [hfd']))
      simp [hfd']
    rcases eq_or_ne fd₁ fd with rfl | hne₁
    · rcases eq_or_ne fd₂ fd₁ with rfl | hne₂
      · rfl
      · rw [Function.update_of_ne hne₂] at h₂
        rw [Function.update_self, Option.some.injEq] at h₁
        cases key hne₂ h₂ h₁
    · rw [Function.update_of_ne hne₁] at h₁
      rcases eq_or_ne fd₂ fd with rfl | hne₂
      · rw [Function.update_self, Option.some.injEq] at h₂
        cases key hne₁ h₁ h₂
      · rw [Function.update_of_ne hne₂] at h₂
        apply h.unique fd₁ fd₂ ip h₁ h₂

theorem Consistent.closes {s s' : TcpServer} {fd : Fd} (h : s.Consistent)
    (hs : s.Closes s' fd) :
  s'.Consistent
  := by
  have hsockets : ∀ fd' socket, s'.sockets fd' = some socket ↔
      fd' ≠ fd ∧ s.sockets fd' = some socket := by
    intro fd' socket
    rw [hs.sockets]
    rcases eq_or_ne fd' fd with rfl | hne
    · simp
    · simp [hne]
  have hopen : ∀ fd', s'.sockets fd' ≠ none ↔ fd' ≠ fd ∧ s.sockets fd' ≠ none := by
    intro fd'
    simp only [Option.ne_none_iff_exists', hsockets, exists_and_left]
  constructor
  · intro fd'
    simp only [hs.listners, Finset.mem_erase, h.listners, hsockets, exists_and_left]
  · intro fd' ip hfd'
    obtain ⟨hne, hfd'⟩ := (hsockets _ _).mp hfd'
    apply hs.clients
    apply Finset.mem_erase.mpr ⟨hne, h.clients fd' ip hfd'⟩
  · intro fd'
    rw [hs.all, Finset.mem_erase, h.all, hopen]
  · intro fd' hfd'
    rw [hs.maxFd]
    apply h.maxFd fd' ((hopen fd').mp hfd').2
  · intro fd₁ fd₂ ip h₁ h₂
    apply h.unique fd₁ fd₂ ip ((hsockets _ _).mp h₁).2 ((hsockets _ _).mp h₂).2

theorem Consistent.step {s : TcpServer} (h : s.Consistent) (e : ServerEvent) :
  (s.step e).Consistent
  := by
  cases s.step_change e with
  | keeps hs => apply h.keeps hs
  | opens fd socket hs => apply h.opens hs
  | closes fd hs => apply h.closes hs

theorem consistent_init :
  init.Consistent
  := by
  constructor <;> simp [init]

/-- The server is consistent in every run. -/
theorem consistent_before (es : List ServerEvent) (i : ℕ) :
  (machine.before es i).Consistent
  := machine.invariant_before consistent_init (fun _ e h => h.step e) es i

/-! ### The callback of the interface -/

/-- The socket `fd` listens at an address. -/
def Listens (s : TcpServer) (ipAddress : UInt32) (fd : Fd) : Prop :=
  s.sockets fd = some ⟨.listner, ipAddress⟩

/-- The socket `fd` is that of a client connected at an address. -/
def Connected (s : TcpServer) (ipAddress : UInt32) (fd : Fd) : Prop :=
  s.sockets fd = some ⟨.client, ipAddress⟩

instance (s : TcpServer) (ipAddress : UInt32) (fd : Fd) : Decidable (s.Listens ipAddress fd) :=
  inferInstanceAs (Decidable (_ = _))

instance (s : TcpServer) (ipAddress : UInt32) (fd : Fd) : Decidable (s.Connected ipAddress fd) :=
  inferInstanceAs (Decidable (_ = _))

/-- What the step from `s` to `s'` is to achieve: when the interface comes up one socket listens
at its address, and the task polls it; when it goes down none does, and no client is closed. -/
def Serves (s : TcpServer) (e : ServerEvent) (s' : TcpServer) : Prop :=
  match e with
  | .netifUp _ =>
      ∃ fd, s'.Listens s'.ipAddress fd ∧ (∀ fd', s'.Listens s'.ipAddress fd' → fd' = fd)
        ∧ fd ∈ s'.fdsetListners ∧ fd ∈ s'.fdsetAll
  | .netifDown =>
      (∀ fd, ¬ s'.Listens s'.ipAddress fd)
        ∧ ∀ fd ipAddress, s.Connected ipAddress fd → s'.Connected ipAddress fd
  | _ => True

/-- No client is in the way: when the interface comes up a socket listens at its address already or
no client is connected there, and when it goes down each client connected there has a larger
descriptor than a listening socket. -/
def Unobstructed (s : TcpServer) : ServerEvent → Prop
  | .netifUp _ => (∃ fd, s.Listens s.ipAddress fd) ∨ ∀ fd, ¬ s.Connected s.ipAddress fd
  | .netifDown =>
      ∀ fd, s.Connected s.ipAddress fd → ∃ fd' < fd, s.Listens s.ipAddress fd'
  | _ => True

theorem listens_or_connected {s : TcpServer} {ipAddress : UInt32} {fd : Fd}
    (h : (s.sockets fd).map Socket.ipAddress = some ipAddress) :
  s.Listens ipAddress fd ∨ s.Connected ipAddress fd
  := by
  obtain ⟨⟨kind, ip⟩, hfd, rfl⟩ := Option.map_eq_some_iff.mp h
  cases kind with
  | listner => exact Or.inl hfd
  | client => exact Or.inr hfd

theorem map_ipAddress {s : TcpServer} {ipAddress : UInt32} {fd : Fd}
    (h : s.Listens ipAddress fd ∨ s.Connected ipAddress fd) :
  (s.sockets fd).map Socket.ipAddress = some ipAddress
  := by
  rcases h with h | h <;> rw [h] <;> rfl

/-- A socket that is not found has not the address. -/
theorem Consistent.not_listens {s : TcpServer} (h : s.Consistent) {ipAddress : UInt32}
    (hnone : tcpServerGetSocketByIpAddress ipAddress s = none) (fd : Fd) :
  ¬ (s.Listens ipAddress fd ∨ s.Connected ipAddress fd)
  := by
  intro hfd
  apply getSocket_none hnone fd _ (map_ipAddress hfd)
  apply h.maxFd
  intro hclosed
  have := map_ipAddress hfd
  rw [hclosed] at this
  cases this

/-- The socket that is found is the least one with the address. -/
theorem Consistent.getSocket_le {s : TcpServer} (h : s.Consistent) {ipAddress : UInt32} {fd : Fd}
    (hsome : tcpServerGetSocketByIpAddress ipAddress s = some fd) {fd' : Fd}
    (hfd' : s.Listens ipAddress fd' ∨ s.Connected ipAddress fd') :
  fd ≤ fd'
  := by
  by_contra hlt
  apply (getSocket_some hsome).2 fd' (not_le.mp hlt) _ (map_ipAddress hfd')
  apply h.maxFd
  intro hclosed
  have := map_ipAddress hfd'
  rw [hclosed] at this
  cases this

theorem Consistent.listening {s : TcpServer} (h : s.Consistent) {fd : Fd}
    (hfd : s.Listens s.ipAddress fd) :
  ∃ fd, s.Listens s.ipAddress fd ∧ (∀ fd', s.Listens s.ipAddress fd' → fd' = fd)
    ∧ fd ∈ s.fdsetListners ∧ fd ∈ s.fdsetAll
  := by
  use fd, hfd
  constructor
  · intro fd' hfd'
    apply h.unique fd' fd s.ipAddress hfd' hfd
  · constructor
    · apply (h.listners fd).mpr ⟨_, hfd⟩
    · apply (h.all fd).mpr
      rw [hfd]
      nofun

/-- A callback that reports the interface touches neither the address nor a parser. -/
theorem addListenerSocket_frame (fd : Fd) (s : TcpServer) :
  (tcpServerAddListenerSocket fd s).ipAddress = s.ipAddress
    ∧ (tcpServerAddListenerSocket fd s).protocolParser = s.protocolParser
  := by
  unfold tcpServerAddListenerSocket tcpServerCreateNewListnerSocket
  split
  · exact ⟨rfl, rfl⟩
  · split
    · exact ⟨rfl, rfl⟩
    · rename_i h
      split at h
      · cases h
        exact ⟨rfl, rfl⟩
      · cases h

theorem removeListenerSocket_frame (s : TcpServer) :
  (tcpServerRemoveListenerSocket s).ipAddress = s.ipAddress
    ∧ (tcpServerRemoveListenerSocket s).protocolParser = s.protocolParser
  := by
  unfold tcpServerRemoveListenerSocket
  split
  · exact ⟨rfl, rfl⟩
  · exact ⟨rfl, rfl⟩

/-- When the interface comes up, the server listens exactly if no client is in the way. -/
theorem Consistent.serves_netifUp {s : TcpServer} (h : s.Consistent) {fd : Fd}
    (hfree : s.sockets fd = none) :
  s.Serves (.netifUp fd) (s.step (.netifUp fd)) ↔ s.Unobstructed (.netifUp fd)
  := by
  have hnext : (s.step (.netifUp fd)).Consistent := h.step _
  have hip : (s.step (.netifUp fd)).ipAddress = s.ipAddress := (addListenerSocket_frame fd s).1
  cases hget : tcpServerGetSocketByIpAddress s.ipAddress s with
  | none =>
      constructor
      · intro _
        right
        intro fd' hfd'
        apply h.not_listens hget fd' (Or.inr hfd')
      · intro _
        apply hnext.listening
        rw [hip]
        show (tcpServerAddListenerSocket fd s).sockets fd = _
        rw [(addListenerSocket_spec fd s hfree hget).sockets, Function.update_self]
  | some fd' =>
      have hstep : s.step (.netifUp fd) = s := addListenerSocket_of_some fd hget
      rw [hstep]
      constructor
      · rintro ⟨fd, hfd, _⟩
        exact Or.inl ⟨fd, hfd⟩
      · rintro (⟨fd, hfd⟩ | hclients)
        · apply h.listening hfd
        · rcases listens_or_connected (getSocket_some hget).1 with hfd | hfd
          · apply h.listening hfd
          · apply absurd hfd (hclients fd')

/-- When the interface goes down, the server stops listening and closes no client exactly if no
client is in the way. -/
theorem Consistent.serves_netifDown {s : TcpServer} (h : s.Consistent) :
  s.Serves .netifDown (s.step .netifDown) ↔ s.Unobstructed .netifDown
  := by
  have hip : (s.step .netifDown).ipAddress = s.ipAddress := (removeListenerSocket_frame s).1
  rw [Serves, hip]
  cases hget : tcpServerGetSocketByIpAddress s.ipAddress s with
  | none =>
      have hstep : s.step .netifDown = s := removeListenerSocket_of_none hget
      rw [hstep]
      constructor
      · intro _ fd hfd
        apply absurd (Or.inr hfd) (h.not_listens hget fd)
      · intro _
        constructor
        · intro fd hfd
          apply h.not_listens hget fd (Or.inl hfd)
        · intro fd ipAddress hfd
          apply hfd
  | some fd =>
      have hsockets : (s.step .netifDown).sockets = Function.update s.sockets fd none :=
        (removeListenerSocket_spec hget).sockets
      rcases listens_or_connected (getSocket_some hget).1 with hfd | hfd
      · constructor
        · intro _ fd' hfd'
          use fd
          constructor
          · apply lt_of_le_of_ne (h.getSocket_le hget (Or.inr hfd'))
            rintro rfl
            rw [Listens, hfd'] at hfd
            cases hfd
          · apply hfd
        · intro _
          constructor
          · intro fd' hfd'
            rw [Listens, hsockets] at hfd'
            rcases eq_or_ne fd' fd with rfl | hne
            · rw [Function.update_self] at hfd'
              cases hfd'
            · rw [Function.update_of_ne hne] at hfd'
              apply hne (h.unique fd' fd _ hfd' hfd)
          · intro fd' ipAddress hfd'
            rw [Connected, hsockets, Function.update_of_ne]
            · apply hfd'
            · rintro rfl
              rw [Listens, hfd'] at hfd
              cases hfd
      · constructor
        · rintro ⟨_, hclients⟩
          have := hclients fd s.ipAddress hfd
          rw [Connected, hsockets, Function.update_self] at this
          cases this
        · intro hclients
          obtain ⟨fd', hlt, hfd'⟩ := hclients fd hfd
          apply absurd (h.getSocket_le hget (Or.inl hfd')) (not_le.mpr hlt)

/-- `lwip_socket` succeeds: in each callback that reports the interface up, it gives a descriptor
that is not in use. -/
def SocketsFree (es : List ServerEvent) : Prop :=
  ∀ i fd, es[i]? = some (.netifUp fd) → (machine.before es i).sockets fd = none

/-- In every run, each callback does what it is to do exactly if no client is in its way. -/
theorem serves_iff (es : List ServerEvent) (hfree : SocketsFree es) :
  (∀ i e, es[i]? = some e →
    (machine.before es i).Serves e (machine.before es (i + 1)))
  ↔ ∀ i e, es[i]? = some e → (machine.before es i).Unobstructed e
  := by
  have key : ∀ i e, es[i]? = some e →
      ((machine.before es i).Serves e (machine.before es (i + 1))
        ↔ (machine.before es i).Unobstructed e) := by
    intro i e he
    have h := consistent_before es i
    rw [machine.before_succ he]
    cases e with
    | address ipAddress => exact Iff.rfl
    | netifUp fd => apply h.serves_netifUp (hfree i fd he)
    | netifDown => apply h.serves_netifDown
    | ready fd accepted recv => exact Iff.rfl
  constructor
  · intro hserves i e he
    apply (key i e he).mp (hserves i e he)
  · intro hclear i e he
    apply (key i e he).mpr (hclear i e he)

/-! ### A client that stays connected -/

namespace LinkFlap

/-- The address of the interface. -/
def address : UInt32 := 0xC0A8010A

/-- The interface comes up, a client connects, and the interface goes down. -/
def events : List ServerEvent :=
  [.address address, .netifUp 0, .ready 0 (some 1) .wouldBlock, .netifDown]

theorem socketsFree_events :
  SocketsFree events
  := by
  intro i fd h
  rcases i with _ | _ | _ | _ | i
  · cases h
  · cases h
    decide +kernel
  · cases h
  · cases h
  · cases h

/-- The server stops listening and keeps the client. -/
theorem serves_events :
  SocketsFree events
    ∧ ∀ i e, events[i]? = some e →
      (machine.before events i).Serves e (machine.before events (i + 1))
  := by
  use socketsFree_events
  apply (serves_iff events socketsFree_events).mpr
  intro i e h
  rcases i with _ | _ | _ | _ | i
  · cases h
    trivial
  · cases h
    show (∃ fd, _) ∨ ∀ fd, _
    decide +kernel
  · cases h
    trivial
  · cases h
    show ∀ fd, _
    decide +kernel
  · cases h

/-- The interface comes up again while the client is connected. -/
def again : List ServerEvent :=
  events ++ [.netifUp 0]

theorem socketsFree_again :
  SocketsFree again
  := by
  intro i fd h
  rcases i with _ | _ | _ | _ | _ | i
  · cases h
  · cases h
    decide +kernel
  · cases h
  · cases h
  · cases h
    decide +kernel
  · cases h

/-- The server does not listen again while the client stays connected. -/
theorem not_serves_again :
  ¬ ∀ es, SocketsFree es → ∀ i e, es[i]? = some e →
    (machine.before es i).Serves e (machine.before es (i + 1))
  := by
  intro h
  obtain ⟨fd, hfd, _⟩ := h again socketsFree_again 4 (.netifUp 0) rfl
  revert fd
  decide +kernel

end LinkFlap

end TcpServer

end EthercatMaster
