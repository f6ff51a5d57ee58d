import EthercatMaster.Soem.SdoDownload

/-!
# SDO uploads

`ec_SDOread` brings the value of an object, in one answer or in as many segments as the server makes
of it, into a buffer that is large enough; if the buffer is too small it stays as it is, and an
error is reported.
-/

namespace EthercatMaster

open Bytes SdoServer

/-! ### Answers of an upload -/

section Answers

variable {value part : List UInt8} {key : SdoKey} {b source : Bytes} {i k size : ℕ}
  {toggle : UInt8} {last : Bool}

/-- The header of an answer is read under its data. -/
theorem isSdoResponse_copy (h : 8 ≤ i) :
  isSdoResponse (b.copy i source k) = isSdoResponse b
  := by
  rw [isSdoResponse, isSdoResponse, copy_disjoint (Or.inl (Nat.le_trans (by decide) h)),
    uint16_copy_disjoint (Or.inl (Nat.le_trans (by decide) h))]

theorem toInt32_toUInt32 (h : size < 2 ^ 31) :
  size.toUInt32.toInt32.toInt = size
  := by
  have hofNat : size.toUInt32.toInt32 = Int32.ofNat size := by
    simp
  rw [hofNat, Int32.toInt_ofNat_of_lt h]

theorem toUInt16_add_sub (m : ℕ) (h : k + m < 65536) :
  ((k + m).toUInt16 - m.toUInt16).toNat = k
  := by
  have hsub : (k + m).toUInt16 - m.toUInt16 = k.toUInt16 := by
    simp
  rw [hsub]
  apply UInt16.toNat_ofNat_of_lt'
  rw [UInt16.size]
  omega

theorem coeAnswer_length {length service : UInt16} {Command : UInt8} :
  (coeAnswer length service Command key).uint16 posLength = length
  := by
  rw [coeAnswer, uint16_copy_disjoint (by decide), uint16_copy_disjoint (by decide),
    uint16_copy_disjoint (by decide), uint16_copy_disjoint (by decide),
    uint16_copy_disjoint (by decide), uint16_set16]

/-- What the master reads from an expedited answer. -/
theorem expeditedAnswer_spec (key : SdoKey) (hpos : 0 < value.length) (hlen : value.length ≤ 4) :
  isSdoResponse (expeditedAnswer value key) = true
    ∧ (expeditedAnswer value key).uint16 posIndex = key.index
    ∧ expeditedAnswer value key posCommand &&& 0x02 ≠ 0
    ∧ 4 - ((expeditedAnswer value key posCommand >>> 2) &&& 0x03).toNat = value.length
    ∧ ∀ i < value.length, (expeditedAnswer value key).drop posLdata i = Bytes.ofList value i
  := by
  have hcommand : expeditedAnswer value key posCommand
      = (0x43 : UInt8) ||| (4 - value.length).toUInt8 <<< 2 := by
    rw [expeditedAnswer, copy_disjoint (Or.inl (by decide)), sdoConfirm, coeAnswer_command]
  refine ⟨?_, ?_, ?_, ?_, ?_⟩
  · rw [expeditedAnswer, isSdoResponse_copy (by decide), sdoConfirm_isSdoResponse]
  · rw [expeditedAnswer, uint16_copy_disjoint (Or.inl (by decide)), sdoConfirm, coeAnswer_index]
  · rw [hcommand]
    generalize value.length = n at hpos hlen
    interval_cases n
    all_goals decide
  · rw [hcommand]
    generalize value.length = n at hpos hlen
    interval_cases n
    all_goals decide
  · intro i hi
    rw [drop, expeditedAnswer, copy_of_mem (by omega) (by omega), Nat.add_sub_cancel_left]

/-- What the master reads from the first answer of a normal upload. -/
theorem uploadAnswer_spec (part : List UInt8) (key : SdoKey) (hsize : size < 2 ^ 31)
    (hpart : part.length + 10 < 65536) :
  isSdoResponse (uploadAnswer size part key) = true
    ∧ (uploadAnswer size part key).uint16 posIndex = key.index
    ∧ uploadAnswer size part key posCommand &&& 0x02 = 0
    ∧ ((uploadAnswer size part key).uint32 posLdata).toInt32.toInt = size
    ∧ dataSize (uploadAnswer size part key) 10 = part.length
    ∧ ∀ i < part.length, (uploadAnswer size part key).drop posLdata1 i = Bytes.ofList part i
  := by
  refine ⟨?_, ?_, ?_, ?_, ?_, ?_⟩
  · rw [uploadAnswer, isSdoResponse_copy (by decide), set32, isSdoResponse_copy (by decide),
      coeAnswer_isSdoResponse (by decide)]
    rfl
  · rw [uploadAnswer, uint16_copy_disjoint (Or.inl (by decide)), uint16_copy_disjoint (by decide),
      coeAnswer_index]
  · rw [uploadAnswer, copy_disjoint (Or.inl (by decide)), set32_disjoint (by decide),
      coeAnswer_command]
    decide
  · rw [uploadAnswer, uint32_copy_disjoint (Or.inl (by decide)), uint32_set32,
      toInt32_toUInt32 hsize]
  · rw [dataSize, uploadAnswer, uint16_copy_disjoint (Or.inl (by decide)),
      uint16_copy_disjoint (by decide), coeAnswer_length]
    apply toUInt16_add_sub 10 hpart
  · intro i hi
    rw [drop, uploadAnswer, copy_of_mem (by omega) (by omega), Nat.add_sub_cancel_left]

/-- The header of a segment. -/
def segmentHeader (length : ℕ) (last : Bool) (toggle : UInt8) : UInt16 × UInt8 :=
  if last ∧ length < 7 then (0x0a, (0x01 : UInt8) ||| (7 - length).toUInt8 <<< 1 ||| toggle)
  else ((length + 3).toUInt16, (if last then 0x01 else 0x00) ||| toggle)

theorem segmentAnswer_eq (part : List UInt8) (last : Bool) (toggle : UInt8) :
  segmentAnswer part last toggle
    = (coeAnswer (segmentHeader part.length last toggle).1 ectCoesSdores
      (segmentHeader part.length last toggle).2 ⟨0, 0, false⟩).copy posIndex (.ofList part)
        part.length
  := by
  rw [segmentAnswer, segmentHeader]
  split
  · rfl
  · rfl

/-- What the header of a segment tells. -/
theorem segmentHeader_spec (last : Bool) (htoggle : IsToggle toggle) (hpos : 0 < k)
    (hk : k + 3 < 65536) :
  (segmentHeader k last toggle).2 &&& 0xe0 = 0x00
    ∧ ((segmentHeader k last toggle).2 &&& 0x01 = 0 ↔ last = false)
    ∧ (if (segmentHeader k last toggle).2 &&& 0x01 ≠ 0
        ∧ ((segmentHeader k last toggle).1 - 3).toNat = 7 then
        7 - (((segmentHeader k last toggle).2 &&& 0x0e) >>> 1).toNat
      else ((segmentHeader k last toggle).1 - 3).toNat) = k
  := by
  rw [segmentHeader]
  split
  case isTrue hshort =>
    obtain ⟨hlast, hseven⟩ := hshort
    subst hlast
    rcases htoggle with rfl | rfl
    all_goals interval_cases k
    all_goals decide
  case isFalse =>
    dsimp only
    have hlength : ((k + 3).toUInt16 - 3).toNat = k := toUInt16_add_sub 3 hk
    rw [hlength]
    cases last with
    | false =>
        rcases htoggle with rfl | rfl
        · refine ⟨by decide, by decide, ?_⟩
          rw [if_neg (fun h => h.1 (by decide))]
        · refine ⟨by decide, by decide, ?_⟩
          rw [if_neg (fun h => h.1 (by decide))]
    | true =>
        by_cases hseven : k = 7
        · subst hseven
          rcases htoggle with rfl | rfl
          all_goals decide
        · rcases htoggle with rfl | rfl
          · refine ⟨by decide, by decide, ?_⟩
            rw [if_neg (fun h => hseven h.2)]
          · refine ⟨by decide, by decide, ?_⟩
            rw [if_neg (fun h => hseven h.2)]

/-- What the master reads from a segment. -/
theorem segmentAnswer_spec (part : List UInt8) (last : Bool) (htoggle : IsToggle toggle)
    (hpos : 0 < part.length) (hpart : part.length + 3 < 65536) :
  isSdoResponse (segmentAnswer part last toggle) = true
    ∧ segmentAnswer part last toggle posCommand &&& 0xe0 = 0x00
    ∧ (segmentAnswer part last toggle posCommand &&& 0x01 = 0 ↔ last = false)
    ∧ segmentSize (segmentAnswer part last toggle) = part.length
    ∧ ∀ i < part.length, (segmentAnswer part last toggle).drop posIndex i = Bytes.ofList part i
  := by
  have hcommand : segmentAnswer part last toggle posCommand
      = (segmentHeader part.length last toggle).2 := by
    rw [segmentAnswer_eq, copy_disjoint (Or.inl (by decide)), coeAnswer_command]
  obtain ⟨hkind, hlast, hsize⟩ := segmentHeader_spec last htoggle hpos hpart
  refine ⟨?_, ?_, ?_, ?_, ?_⟩
  · rw [segmentAnswer_eq, isSdoResponse_copy (by decide), coeAnswer_isSdoResponse (by decide)]
    rfl
  · rw [hcommand, hkind]
  · rw [hcommand, hlast]
  · rw [segmentSize, dataSize, hcommand, segmentAnswer_eq,
      uint16_copy_disjoint (Or.inl (by decide)), coeAnswer_length]
    exact hsize
  · intro i hi
    rw [segmentAnswer_eq, drop, copy_of_mem (by omega) (by omega), Nat.add_sub_cancel_left]

end Answers

/-! ### Requests of an upload -/

section Upload

variable {σ : Type} {link : Link σ} {slave : MbxSlave} {rules : SdoRules} {server : σ → SdoServer}
  {index : UInt16} {subindex cnt toggle : UInt8} {key : SdoKey} {value rest : List UInt8}
  {p out : Bytes} {CA : Bool} {s : SdoServer} {time timeout : ℤ} {x x₀ : CoeState σ} {n : ℕ}

/-- A request starts an upload. -/
theorem respond_upload (rules : SdoRules) (index : UInt16) (subindex : UInt8) (CA : Bool)
    (cnt : UInt8) :
  s.respond rules (uploadRequest index subindex CA cnt)
    = if 0 < (s.objects ⟨index, subindex, CA⟩).length
        ∧ (s.objects ⟨index, subindex, CA⟩).length ≤ 4 then
        s.answer (expeditedAnswer (s.objects ⟨index, subindex, CA⟩) ⟨index, subindex, CA⟩) .idle
      else
        s.answer (uploadAnswer (s.objects ⟨index, subindex, CA⟩).length
            ((s.objects ⟨index, subindex, CA⟩).take (rules.mbx_rl - 16)) ⟨index, subindex, CA⟩)
          (if (s.objects ⟨index, subindex, CA⟩).length ≤ rules.mbx_rl - 16 then .idle
            else .upload ((s.objects ⟨index, subindex, CA⟩).drop (rules.mbx_rl - 16)) 0)
  := by
  have hcommand : uploadRequest index subindex CA cnt posCommand
      = if CA then ectSdoUpReqCa else ectSdoUpReq := by
    rw [uploadRequest, set32_disjoint (by decide), sdoObject_command]
  have hkey : requestKey (uploadRequest index subindex CA cnt) = ⟨index, subindex, CA⟩ := by
    rw [requestKey, hcommand, uploadRequest, uint16_copy_disjoint (by decide), sdoObject_index,
      set32_disjoint (by decide), sdoObject_subIndex]
    cases CA with
    | true => rfl
    | false => rfl
  have hkind : (uploadRequest index subindex CA cnt posCommand >>> 5).toNat = 2 := by
    rw [hcommand]
    cases CA with
    | true => rfl
    | false => rfl
  rw [respond_initiateUpload rules hkind, initiateUpload, hkey]

/-- The request of a segment as `ecx_SDOread` builds it. -/
def segmentUpload (index : UInt16) (subindex toggle cnt : UInt8) (out : Bytes) : Bytes :=
  (sdoObject (ectSdoSegUpReq + toggle) index subindex (sdoHeader 0x0a cnt out)).set32 posLdata 0

theorem segmentUpload_zeroFrom (index : UInt16) (subindex toggle cnt : UInt8)
    (hout : out.ZeroFrom n) (hn : 16 ≤ n) :
  (segmentUpload index subindex toggle cnt out).ZeroFrom n
  := (sdoRequest_zeroFrom hout hn).copy hn

/-- A request asks for a segment. -/
theorem respond_segmentUpload (rules : SdoRules) (index : UInt16) (subindex cnt : UInt8)
    (out : Bytes) (htoggle : IsToggle toggle) (htransfer : s.transfer = .upload rest toggle) :
  s.respond rules (segmentUpload index subindex toggle cnt out)
    = if rest.length ≤ rules.mbx_rl - 9 then s.answer (segmentAnswer rest true toggle) .idle
      else s.answer (segmentAnswer (rest.take (rules.mbx_rl - 9)) false toggle)
        (.upload (rest.drop (rules.mbx_rl - 9)) (toggle ^^^ 0x10))
  := by
  have hcommand : segmentUpload index subindex toggle cnt out posCommand
      = ectSdoSegUpReq + toggle := by
    rw [segmentUpload, set32_disjoint (by decide), sdoObject_command]
  have hkind : (segmentUpload index subindex toggle cnt out posCommand >>> 5).toNat = 3
      ∧ segmentUpload index subindex toggle cnt out posCommand &&& 0x10 = toggle := by
    rw [hcommand]
    rcases htoggle with rfl | rfl
    · decide
    · decide
  rw [respond_uploadSegment rules hkind.1, uploadSegment, htransfer]
  dsimp only
  rw [if_pos hkind.2]

/-! ### The loop over the segments -/

/-- What has been received is a copy of the first part of the object. -/
theorem copy_copy {source : Bytes} {m k : ℕ} (h : ∀ i < k, source i = Bytes.ofList value (m + i)) :
  (p.copy 0 (.ofList value) m).copy m source k = p.copy 0 (.ofList value) (m + k)
  := by
  funext i
  by_cases hnew : m ≤ i ∧ i < m + k
  · rw [copy_of_mem hnew.1 hnew.2, copy_of_mem (Nat.zero_le i) (by omega), h _ (by omega)]
    congr 1
    omega
  · rw [copy_of_not_mem hnew]
    by_cases hold : i < m
    · rw [copy_of_mem (Nat.zero_le i) (by omega), copy_of_mem (Nat.zero_le i) (by omega)]
    · rw [copy_of_not_mem (by omega), copy_of_not_mem (by omega)]

theorem ofList_drop (value : List UInt8) (m i : ℕ) :
  Bytes.ofList (value.drop m) i = Bytes.ofList value (m + i)
  := by
  rw [ofList, ofList, List.getD_eq_getElem?_getD, List.getElem?_drop, ← List.getD_eq_getElem?_getD]

theorem ofList_listTake {m i : ℕ} (h : i < m) :
  Bytes.ofList (value.take m) i = Bytes.ofList value i
  := by
  rw [ofList, ofList, List.getD_eq_getElem?_getD, List.getElem?_take_of_lt h,
    ← List.getD_eq_getElem?_getD]

variable (slave server value p x₀) in
/-- The state between two segments of an upload, and at its end. -/
structure Uploading (u : Upload σ) : Prop where
  mailbox : (server u.x.link).mailbox = none
  objects : (server u.x.link).objects = (server x₀.link).objects
  errors : u.x.errors = x₀.errors
  out : u.MbxOut.ZeroFrom slave.mbx_l.toNat
  wkc : u.wkc = 1
  psize : u.psize = u.hp
  received : u.p = p.copy 0 (.ofList value) u.hp
  toggle : IsToggle u.toggle
  more : u.NotLast = true →
    u.hp < value.length ∧ (server u.x.link).transfer = .upload (value.drop u.hp) u.toggle
  done : u.NotLast = false → u.hp = value.length

/-- A server answers with the next part of the object, which is the last one or not. -/
theorem Uploading.respond (rules : SdoRules) (index : UInt16) (subindex : UInt8)
    {u : Upload σ} (h : Uploading slave server value p x₀ u) (hmore : u.NotLast = true)
    (hroom : 9 < rules.mbx_rl) :
  ∃ part last transfer,
    (server u.x.next.link).respond rules
        (segmentUpload index subindex u.toggle u.x.next.mbx_cnt u.MbxOut)
      = (server u.x.next.link).answer (segmentAnswer part last u.toggle) transfer
    ∧ 0 < part.length ∧ part.length ≤ rules.mbx_rl - 9
    ∧ (∀ i < part.length, Bytes.ofList part i = Bytes.ofList value (u.hp + i))
    ∧ u.hp + part.length ≤ value.length
    ∧ (last = true → u.hp + part.length = value.length)
    ∧ (last = false → u.hp + part.length < value.length
      ∧ transfer = .upload (value.drop (u.hp + part.length)) (u.toggle ^^^ 0x10))
  := by
  obtain ⟨hlt, htransfer⟩ := h.more hmore
  have hrest : (value.drop u.hp).length = value.length - u.hp := List.length_drop
  have hrespond := respond_segmentUpload rules index subindex u.x.next.mbx_cnt u.MbxOut
    (s := server u.x.next.link) h.toggle htransfer
  split at hrespond
  case isTrue hlast =>
    refine ⟨value.drop u.hp, true, .idle, hrespond, by omega, hlast, ?_, by omega,
      fun _ => by omega, fun hfalse => by cases hfalse⟩
    intro i _
    apply ofList_drop
  case isFalse hnot =>
    have hpart : ((value.drop u.hp).take (rules.mbx_rl - 9)).length = rules.mbx_rl - 9 := by
      rw [List.length_take]
      omega
    refine ⟨(value.drop u.hp).take (rules.mbx_rl - 9), false, _, hrespond, by omega, by omega,
      ?_, by omega, (fun htrue => by cases htrue), ?_⟩
    · intro i hi
      rw [ofList_listTake (by omega), ofList_drop]
    · intro _
      refine ⟨by omega, ?_⟩
      rw [hpart, List.drop_drop]

/-- A segment brings the next part of the object. -/
theorem Uploading.segment (hserves : Serves link slave rules time server)
    (htimeout : time ≤ timeout) {u u' : Upload σ} (h : Uploading slave server value p x₀ u)
    (hmore : u.NotLast = true) (hu' : u.segment link slave index subindex timeout = u') :
  u.hp < u'.hp ∧ u'.hp ≤ value.length ∧ Uploading slave server value p x₀ u'
  := by
  obtain ⟨hroom, hroom'⟩ := hserves.mbx_rl
  rw [ecMaxmbx] at hroom'
  obtain ⟨part, last, transfer, hrespond, hpos, hle, hpart, hfits, hlast, hnot⟩ :=
    h.respond rules index subindex hmore (by omega)
  have hout := segmentUpload_zeroFrom index subindex u.toggle u.x.next.mbx_cnt h.out
    hserves.mbx_l.1
  obtain ⟨t, hexchange, ht⟩ := hserves.exchange htimeout hout hrespond
  rw [segmentUpload] at hexchange
  obtain ⟨hresponse, hkind, hbit, hsize, hdata⟩ :=
    segmentAnswer_spec part last h.toggle hpos (by omega)
  rw [Upload.segment] at hu'
  dsimp only at hu'
  rw [hexchange] at hu'
  dsimp only at hu'
  rw [if_pos ⟨hresponse, hkind⟩, hsize] at hu'
  subst hu'
  refine ⟨by dsimp only; omega, hfits, by rw [ht], by rw [ht]; exact h.objects, h.errors, hout, rfl,
    ?_, ?_, h.toggle.next, ?_, ?_⟩
  · dsimp only
    rw [h.psize]
    push_cast
    rfl
  · dsimp only
    rw [h.received]
    apply copy_copy
    intro i hi
    rw [hdata i hi, hpart i hi]
  · intro hmore'
    rw [ht]
    exact hnot (hbit.mp (of_decide_eq_true hmore'))
  · intro hdone
    apply hlast
    rw [← Bool.not_eq_false]
    intro hfalse
    exact of_decide_eq_false hdone (hbit.mpr hfalse)

/-- The loop over the segments ends when the object is complete. -/
theorem Uploading.ends (hserves : Serves link slave rules time server)
    (htimeout : time ≤ timeout) (index : UInt16) (subindex : UInt8) {u : Upload σ} {fuel : ℕ}
    (h : Uploading slave server value p x₀ u) (hfuel : value.length ≤ fuel) :
  ∃ u', loop Upload.NotLast (Upload.segment link slave index subindex timeout) fuel u = some u'
    ∧ Uploading slave server value p x₀ u' ∧ u'.hp = value.length
  := by
  have hbody : ∀ u, Uploading slave server value p x₀ u → u.NotLast = true →
      Uploading slave server value p x₀ (u.segment link slave index subindex timeout)
        ∧ value.length - (u.segment link slave index subindex timeout).hp
          < value.length - u.hp := by
    intro u hu hmore
    obtain ⟨hless, hle, hnext⟩ := hu.segment hserves htimeout hmore rfl
    exact ⟨hnext, by omega⟩
  obtain ⟨u', hloop, hu', hlast⟩ := Loop.ends _ (fun u => value.length - u.hp) hbody h
    ((Nat.sub_le _ _).trans hfuel)
  exact ⟨u', hloop, hu', hu'.done hlast⟩

/-- An upload brings the value of any object below 2 GB, whatever message is left in the mailbox: it
is copied into a buffer that is large enough, and the work counter is 1; else the buffer stays as it
is and the error is reported.  The objects of the slave stay as they are. -/
theorem ecxSDOread_value (hserves : Serves link slave rules time server)
    (htimeout : time ≤ timeout) (index : UInt16) (subindex : UInt8) (CA : Bool) (psize : ℤ)
    (p : Bytes) {fuel : ℕ} {x : CoeState σ} (hx : Settled link slave server x)
    (hvalue : (server x.link).objects ⟨index, if CA ∧ 1 < subindex then 1 else subindex, CA⟩
      = value)
    (hlength : value.length < 2 ^ 31) (hfuel : value.length ≤ fuel) :
  ∃ x', ecxSDOread link slave index subindex CA psize p timeout fuel x
      = some (if value.length ≤ psize then
          ⟨1, value.length, p.copy 0 (.ofList value) value.length⟩ else ⟨0, psize, p⟩, x')
    ∧ (server x'.link).objects = (server x.link).objects ∧ (server x'.link).mailbox = none
    ∧ x'.errors = if value.length ≤ psize then x.errors
      else x.errors.packeterror (link.currentTime x'.link) slave.Slave index
        (if CA ∧ 1 < subindex then 1 else subindex) 3
  := by
  have hmbx := hserves.mbx_l.1
  obtain ⟨hroom, hroom'⟩ := hserves.mbx_rl
  rw [ecMaxmbx] at hroom'
  obtain ⟨hobjects, herrors⟩ := hx.begins hserves
  rw [ecxSDOread]
  dsimp only
  generalize (emptyMbx link slave x).next = x₁ at hobjects herrors ⊢
  generalize (if CA ∧ 1 < subindex then 1 else subindex) = sub at hvalue ⊢
  have hrespond := respond_upload rules index sub CA x₁.mbx_cnt (s := server x₁.link)
  rw [hobjects, hvalue] at hrespond
  have hindex : (uploadRequest index sub CA x₁.mbx_cnt).uint16 posIndex = index := by
    rw [uploadRequest, uint16_copy_disjoint (by decide), sdoObject_index]
  have hout : (uploadRequest index sub CA x₁.mbx_cnt).ZeroFrom slave.mbx_l.toNat :=
    (sdoRequest_zeroFrom ecClearmbx_zeroFrom hmbx).copy hmbx
  rw [hindex]
  split at hrespond
  case isTrue hsmall =>
    obtain ⟨hresponse, hkey, hkind, hsize, hdata⟩ := expeditedAnswer_spec
      ⟨index, sub, CA⟩ hsmall.1 hsmall.2
    obtain ⟨t', hexchange, ht'⟩ := hserves.exchange htimeout hout hrespond
    have hobjects' : (server t').objects = (server x.link).objects := by rw [ht', hobjects]
    have hmailbox' : (server t').mailbox = none := by rw [ht']
    rw [hexchange]
    dsimp only
    rw [if_pos ⟨hresponse, hkey⟩, if_pos hkind, hsize, copy_congr hdata]
    by_cases hfits : (value.length : ℤ) ≤ psize
    · rw [if_pos hfits, if_pos hfits]
      exact ⟨_, rfl, hobjects', hmailbox', herrors.trans (if_pos hfits).symm⟩
    · rw [if_neg hfits, if_neg hfits]
      refine ⟨_, rfl, hobjects', hmailbox', ?_⟩
      rw [if_neg hfits, ← herrors]
      rfl
  case isFalse hlarge =>
    have htake : (value.take (rules.mbx_rl - 16)).length = min (rules.mbx_rl - 16) value.length :=
      List.length_take
    obtain ⟨hresponse, hkey, hkind, hlen, hsize, hdata⟩ := uploadAnswer_spec
      (value.take (rules.mbx_rl - 16)) ⟨index, sub, CA⟩ hlength (by omega)
    obtain ⟨t', hexchange, ht'⟩ := hserves.exchange htimeout hout hrespond
    have hobjects' : (server t').objects = (server x.link).objects := by rw [ht', hobjects]
    have hmailbox' : (server t').mailbox = none := by rw [ht']
    rw [hexchange]
    dsimp only
    rw [if_pos ⟨hresponse, hkey⟩, if_neg (not_not.mpr hkind), hlen, hsize, htake]
    by_cases hfits : (value.length : ℤ) ≤ psize
    · rw [if_pos hfits, if_pos hfits]
      rw [htake] at hdata
      have hcopy : ∀ m ≤ min (rules.mbx_rl - 16) value.length,
          p.copy 0 ((uploadAnswer value.length (value.take (rules.mbx_rl - 16))
            ⟨index, sub, CA⟩).drop posLdata1) m = p.copy 0 (.ofList value) m := by
        intro m hm
        apply copy_congr
        intro i hi
        rw [hdata i (by omega), ofList_listTake (by omega)]
      by_cases hsegments : ((min (rules.mbx_rl - 16) value.length : ℕ) : ℤ) < value.length
      · rw [if_pos hsegments, hcopy _ le_rfl]
        have hmin : min (rules.mbx_rl - 16) value.length = rules.mbx_rl - 16 := by omega
        rw [if_neg (by omega)] at ht'
        rw [hmin]
        have hstart : Uploading slave server value p x
            { MbxOut := uploadRequest index sub CA x₁.mbx_cnt
              p := p.copy 0 (.ofList value) (rules.mbx_rl - 16)
              hp := rules.mbx_rl - 16
              psize := (rules.mbx_rl - 16 : ℕ)
              toggle := 0
              NotLast := true
              wkc := 1
              x := { x₁ with link := t' } } :=
          ⟨hmailbox', hobjects', herrors, hout, rfl, rfl, rfl, .inl rfl,
            fun _ => ⟨by dsimp only; omega, by rw [ht']⟩, fun hdone => by cases hdone⟩
        obtain ⟨u', hloop, hu', hend⟩ := hstart.ends hserves htimeout index sub hfuel
        rw [hloop]
        refine ⟨u'.x, ?_, hu'.objects, hu'.mailbox, hu'.errors.trans (if_pos hfits).symm⟩
        rw [Option.map_some, hu'.wkc, hu'.psize, hu'.received, hend]
      · rw [if_neg hsegments, Int.toNat_natCast, hcopy _ (by omega)]
        exact ⟨_, rfl, hobjects', hmailbox', herrors.trans (if_pos hfits).symm⟩
    · rw [if_neg hfits, if_neg hfits]
      refine ⟨_, rfl, hobjects', hmailbox', ?_⟩
      rw [if_neg hfits, ← herrors]
      rfl

end Upload

/-- An object of twenty bytes is read in three parts through a mailbox of twenty bytes. -/
theorem ecxSDOread_value_segments :
  ∃ r x', ecxSDOread (SdoSlave.link smallRules smallSlave) smallSlave 0x2000 0 true 100
      (fun _ => 0) 2 20
      (⟨⟨⟨fun _ => (List.range 20).map fun i => i.toUInt8, .idle, none⟩, 0, by decide⟩, 0, .init⟩ :
        CoeState (SdoSlave 2)) = some (r, x')
    ∧ r.wkc = 1 ∧ r.psize = 20 ∧ r.p.take 20 = (List.range 20).map fun i => i.toUInt8
  := by
  obtain ⟨x', hrun, -⟩ := ecxSDOread_value smallSlave_serves (le_refl 2) 0x2000 0 true 100
    (fun _ => 0)
    (x := ⟨⟨⟨fun _ => (List.range 20).map fun i => i.toUInt8, .idle, none⟩, 0, by decide⟩, 0,
      .init⟩)
    (Settled.of_none rfl) rfl (by decide) (le_refl 20)
  exact ⟨_, x', hrun, by decide, by decide, by decide⟩

end EthercatMaster
