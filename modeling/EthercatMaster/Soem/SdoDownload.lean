import EthercatMaster.Soem.SdoSlave
import Mathlib.Tactic.IntervalCases

/-!
# SDO downloads

`ec_SDOwrite` brings an object to a server, in one request or in as many segments as the mailbox
makes necessary.  The object is stored and the work counter positive, or the server refuses it, its
objects stay as they are and the abort is reported.
-/

namespace EthercatMaster

open Bytes SdoServer

/-! ### Messages -/

section Messages

variable {length Index service : UInt16} {cnt SubIdx Command : UInt8} {out p : Bytes} {n : ℕ}
  {key : SdoKey}

/-- What a request starts with fits into any mailbox. -/
theorem sdoHeader_zeroFrom (hout : out.ZeroFrom n) (hn : 16 ≤ n) :
  (sdoHeader length cnt out).ZeroFrom n
  := by
  rw [sdoHeader]
  refine ((((hout.copy ?_).copy ?_).copy ?_).copy ?_).copy ?_
  all_goals
    simp only [posLength, posAddress, posPriority, posMbxtype, posCanOpen]
    omega

theorem sdoRequest_zeroFrom (hout : out.ZeroFrom n) (hn : 16 ≤ n) :
  (sdoObject Command Index SubIdx (sdoHeader length cnt out)).ZeroFrom n
  := by
  rw [sdoObject]
  refine (((sdoHeader_zeroFrom hout hn).copy ?_).copy ?_).copy ?_
  all_goals
    simp only [posCommand, posIndex, posSubIndex]
    omega

theorem ecClearmbx_zeroFrom : ecClearmbx.ZeroFrom n := fun _ _ => rfl

theorem sdoHeader_length :
  (sdoHeader length cnt out).uint16 posLength = length
  := by
  rw [sdoHeader, uint16_copy_disjoint (by decide), uint16_copy_disjoint (by decide),
    uint16_copy_disjoint (by decide), uint16_copy_disjoint (by decide), uint16_set16]

theorem sdoObject_command :
  sdoObject Command Index SubIdx out posCommand = Command
  := by
  rw [sdoObject, set8_disjoint (by decide), set16_disjoint (by decide), set8_self]

theorem sdoObject_index :
  (sdoObject Command Index SubIdx out).uint16 posIndex = Index
  := by
  rw [sdoObject, uint16_copy_disjoint (by decide), uint16_set16]

theorem sdoObject_subIndex :
  sdoObject Command Index SubIdx out posSubIndex = SubIdx
  := by
  rw [sdoObject, set8_self]

theorem sdoObject_length :
  (sdoObject Command Index SubIdx out).uint16 posLength = out.uint16 posLength
  := by
  rw [sdoObject, uint16_copy_disjoint (by decide), uint16_copy_disjoint (by decide),
    uint16_copy_disjoint (by decide)]

/-- An answer is one of the SDO service if it is a response. -/
theorem coeAnswer_isSdoResponse (hservice : service <<< 12 >>> 12 = service) :
  isSdoResponse (coeAnswer length service Command key) = decide (service = ectCoesSdores)
  := by
  rw [isSdoResponse, coeAnswer_mbxtype, coeAnswer_canOpen, hservice, decide_eq_decide]
  apply and_iff_right
  decide

theorem coeAnswer_command :
  coeAnswer length service Command key posCommand = Command
  := by
  rw [coeAnswer, set8_disjoint (by decide), set16_disjoint (by decide), set8_self]

theorem coeAnswer_index :
  (coeAnswer length service Command key).uint16 posIndex = key.index
  := by
  rw [coeAnswer, uint16_copy_disjoint (by decide), uint16_set16]

theorem coeAnswer_subIndex :
  coeAnswer length service Command key posSubIndex = key.subindex
  := by
  rw [coeAnswer, set8_self]

theorem sdoConfirm_isSdoResponse :
  isSdoResponse (sdoConfirm Command key) = true
  := by
  rw [sdoConfirm, coeAnswer_isSdoResponse (by decide)]
  rfl

theorem sdoAbort_isSdoResponse {AbortCode : UInt32} :
  isSdoResponse (sdoAbort AbortCode key) = false
  := by
  have hcopy : isSdoResponse (sdoAbort AbortCode key)
      = isSdoResponse (coeAnswer 0x0a ectCoesSdoreq ectSdoAbort key) := by
    rw [isSdoResponse, isSdoResponse, sdoAbort, set32_disjoint (by decide),
      uint16_copy_disjoint (by decide)]
  rw [hcopy, coeAnswer_isSdoResponse (by decide)]
  rfl

/-- An abort is reported with its code. -/
theorem unexpected_sdoAbort {σ : Type} (link : Link σ) (slave : MbxSlave) (AbortCode : UInt32)
    (x : CoeState σ) :
  unexpected link slave Index SubIdx (sdoAbort AbortCode key) x
    = { x with errors :=
        x.errors.sdoError (link.currentTime x.link) slave.Slave Index SubIdx AbortCode }
  := by
  have hcommand : sdoAbort AbortCode key posCommand = ectSdoAbort := by
    rw [sdoAbort, set32_disjoint (by decide), coeAnswer_command]
  have hcode : (sdoAbort AbortCode key).uint32 posLdata = AbortCode := by
    rw [sdoAbort, uint32_set32]
  rw [unexpected, if_pos hcommand, hcode]

end Messages

/-! ### Requests of a download -/

section Download

variable {σ : Type} {link : Link σ} {slave : MbxSlave} {rules : SdoRules} {server : σ → SdoServer}
  {Index : UInt16} {SubIdx cnt : UInt8} {key : SdoKey} {value : List UInt8} {p out : Bytes}
  {n f hp : ℕ} {CA : Bool} {s : SdoServer} {time Timeout : ℤ} {x x₀ : CoeState σ}

variable (link slave rules server Index SubIdx key value x₀) in
/-- How a download ends: the object is stored, or it is refused and the abort reported. -/
structure Written (x : CoeState σ) (wkc : ℤ) : Prop where
  transfer : (server x.link).transfer = .idle
  mailbox : (server x.link).mailbox = none
  stored : rules.accepts (server x₀.link).objects key value = true →
    wkc = 1
      ∧ (server x.link).objects = Function.update (server x₀.link).objects key value
      ∧ x.errors = x₀.errors
  refused : rules.accepts (server x₀.link).objects key value = false →
    wkc = 0
      ∧ (server x.link).objects = (server x₀.link).objects
      ∧ x.errors = x₀.errors.sdoError (link.currentTime x.link) slave.Slave Index SubIdx
        (rules.abortCode (server x₀.link).objects key value)

/-- An expedited request brings the whole object. -/
theorem respond_expedited (rules : SdoRules) (cnt : UInt8) (hn : 0 < n) (hn' : n ≤ 4) :
  s.respond rules (expeditedRequest Index SubIdx n p cnt)
    = s.finish rules (sdoConfirm 0x60 ⟨Index, SubIdx, false⟩) ⟨Index, SubIdx, false⟩ (p.take n)
  := by
  have hcommand : expeditedRequest Index SubIdx n p cnt posCommand
      = ectSdoDownExp ||| (((4 - (n : ℤ)).toNat.toUInt8 <<< 2) &&& 0x0c) := by
    rw [expeditedRequest, copy_disjoint (Or.inl (by decide)), sdoObject_command]
  have hkey : requestKey (expeditedRequest Index SubIdx n p cnt) = ⟨Index, SubIdx, false⟩ := by
    rw [requestKey, hcommand, expeditedRequest, uint16_copy_disjoint (Or.inl (by decide)),
      sdoObject_index, copy_disjoint (Or.inl (by decide)), sdoObject_subIndex]
    interval_cases n
    all_goals rfl
  have hslice : (expeditedRequest Index SubIdx n p cnt).slice posLdata n = p.take n := by
    rw [expeditedRequest, Int.toNat_natCast, slice_copy le_rfl]
  have hkind : (expeditedRequest Index SubIdx n p cnt posCommand >>> 5).toNat = 1
      ∧ expeditedRequest Index SubIdx n p cnt posCommand &&& 0x02 ≠ 0
      ∧ 4 - ((expeditedRequest Index SubIdx n p cnt posCommand >>> 2) &&& 0x03).toNat = n := by
    rw [hcommand]
    interval_cases n
    all_goals decide
  rw [respond_initiateDownload rules hkind.1, initiateDownload, if_pos hkind.2.1, hkind.2.2, hkey,
    hslice]

/-- A normal request brings the first part of the object. -/
theorem respond_download (rules : SdoRules) (Index : UInt16) (SubIdx : UInt8) (CA : Bool)
    (p : Bytes) (cnt : UInt8) (hn : n < 65536) (hf : f ≤ n) (hf' : f + 10 < 65536) :
  s.respond rules (downloadRequest Index SubIdx CA n p f cnt)
    = if f < n then
        s.answer (sdoConfirm 0x60 ⟨Index, if CA ∧ 1 < SubIdx then 1 else SubIdx, CA⟩)
          (.download ⟨Index, if CA ∧ 1 < SubIdx then 1 else SubIdx, CA⟩ n (p.take f) 0)
      else
        s.finish rules (sdoConfirm 0x60 ⟨Index, if CA ∧ 1 < SubIdx then 1 else SubIdx, CA⟩)
          ⟨Index, if CA ∧ 1 < SubIdx then 1 else SubIdx, CA⟩ (p.take n)
  := by
  have hcommand : downloadRequest Index SubIdx CA n p f cnt posCommand
      = if CA then ectSdoDownInitCa else ectSdoDownInit := by
    rw [downloadRequest, copy_disjoint (Or.inl (by decide)), set32_disjoint (by decide),
      sdoObject_command]
  have hkey : requestKey (downloadRequest Index SubIdx CA n p f cnt)
      = ⟨Index, if CA ∧ 1 < SubIdx then 1 else SubIdx, CA⟩ := by
    rw [requestKey, hcommand, downloadRequest, uint16_copy_disjoint (Or.inl (by decide)),
      uint16_copy_disjoint (by decide), sdoObject_index, copy_disjoint (Or.inl (by decide)),
      set32_disjoint (by decide), sdoObject_subIndex]
    cases CA with
    | true => rfl
    | false => rfl
  have hsize : ((downloadRequest Index SubIdx CA n p f cnt).uint32 posLdata).toNat = n := by
    rw [downloadRequest, uint32_copy_disjoint (Or.inl (by decide)), uint32_set32,
      UInt32.toNat_ofNat_of_lt']
    · omega
    · rw [UInt32.size]
      omega
  have hlength : ((downloadRequest Index SubIdx CA n p f cnt).uint16 posLength).toNat - 10 = f := by
    rw [downloadRequest, uint16_copy_disjoint (Or.inl (by decide)),
      uint16_copy_disjoint (by decide), sdoObject_length, sdoHeader_length,
      UInt16.toNat_ofNat_of_lt']
    · omega
    · rw [UInt16.size]
      omega
  have hslice : (downloadRequest Index SubIdx CA n p f cnt).slice posLdata1 f = p.take f := by
    rw [downloadRequest, slice_copy le_rfl]
  have hkind : (downloadRequest Index SubIdx CA n p f cnt posCommand >>> 5).toNat = 1
      ∧ downloadRequest Index SubIdx CA n p f cnt posCommand &&& 0x02 = 0 := by
    rw [hcommand]
    cases CA with
    | true => decide
    | false => decide
  rw [respond_initiateDownload rules hkind.1, initiateDownload, if_neg (not_not.mpr hkind.2)]
  simp only [hsize, hlength, hkey, hslice, length_take]
  split
  · rfl
  · have heq : f = n := by omega
    rw [heq, List.take_of_length_le (length_take _ _).le]

/-- The toggle bit of a segment. -/
def IsToggle (toggle : UInt8) : Prop :=
  toggle = 0 ∨ toggle = 0x10

theorem IsToggle.next {toggle : UInt8} (h : IsToggle toggle) :
  IsToggle (toggle ^^^ 0x10)
  := by
  rcases h with rfl | rfl
  · exact .inr rfl
  · exact .inl rfl

/-- What the command and the length of a segment tell. -/
theorem segmentCommand_spec (NotLast : Bool) {toggle : UInt8} (htoggle : IsToggle toggle)
    (hf : 0 < f) (hf' : f + 3 < 65536) :
  (((segmentCommand f NotLast).1 + toggle) >>> 5).toNat = 0
    ∧ ((segmentCommand f NotLast).1 + toggle) &&& 0x10 = toggle
    ∧ (((segmentCommand f NotLast).1 + toggle) &&& 0x01 = 0 ↔ NotLast = true)
    ∧ (if ((segmentCommand f NotLast).1 + toggle) &&& 0x01 ≠ 0
        ∧ (segmentCommand f NotLast).2.toNat = 10 then
        7 - ((((segmentCommand f NotLast).1 + toggle) >>> 1) &&& 0x07).toNat
      else (segmentCommand f NotLast).2.toNat - 3) = f
  := by
  rw [segmentCommand]
  split
  case isTrue hshort =>
    obtain ⟨hlast, hseven⟩ := hshort
    rw [Bool.not_eq_true'] at hlast
    subst hlast
    rcases htoggle with rfl | rfl
    all_goals interval_cases f
    all_goals decide
  case isFalse =>
    have hlength : (f + 3).toUInt16.toNat = f + 3 := UInt16.toNat_ofNat_of_lt' hf'
    dsimp only
    rw [hlength]
    cases NotLast with
    | true =>
        rcases htoggle with rfl | rfl
        · refine ⟨by decide, by decide, by decide, ?_⟩
          rw [if_neg (fun h => h.1 (by decide)), Nat.add_sub_cancel]
        · refine ⟨by decide, by decide, by decide, ?_⟩
          rw [if_neg (fun h => h.1 (by decide)), Nat.add_sub_cancel]
    | false =>
        by_cases hseven : f = 7
        · subst hseven
          rcases htoggle with rfl | rfl
          all_goals decide
        · have hne : f + 3 ≠ 10 := by omega
          rcases htoggle with rfl | rfl
          · refine ⟨by decide, by decide, by decide, ?_⟩
            rw [if_neg (fun h => hne h.2), Nat.add_sub_cancel]
          · refine ⟨by decide, by decide, by decide, ?_⟩
            rw [if_neg (fun h => hne h.2), Nat.add_sub_cancel]

/-- A segment as `ecx_SDOwrite` builds it. -/
def segmentRequest (framedatasize : ℕ) (NotLast : Bool) (toggle cnt : UInt8) (p out : Bytes)
    (hp : ℕ) : Bytes :=
  ((sdoHeader (segmentCommand framedatasize NotLast).2 cnt out).set8 posCommand
    ((segmentCommand framedatasize NotLast).1 + toggle)).copy posIndex (p.drop hp) framedatasize

/-- A segment brings its data, and confirmation or the end of the download. -/
theorem respond_segment (rules : SdoRules) (NotLast : Bool) (p out : Bytes) (hp : ℕ) (cnt : UInt8)
    {toggle : UInt8} (htoggle : IsToggle toggle) (hf : 0 < f) (hf' : f + 3 < 65536)
    (htransfer : s.transfer = .download key n value toggle)
    (hlast : NotLast = false → (value ++ p.slice hp f).length = n) :
  s.respond rules (segmentRequest f NotLast toggle cnt p out hp)
    = if NotLast then
        s.answer (sdoConfirm (0x20 ||| toggle) key)
          (.download key n (value ++ p.slice hp f) (toggle ^^^ 0x10))
      else s.finish rules (sdoConfirm (0x20 ||| toggle) key) key (value ++ p.slice hp f)
  := by
  have hcommand : segmentRequest f NotLast toggle cnt p out hp posCommand
      = (segmentCommand f NotLast).1 + toggle := by
    rw [segmentRequest, copy_disjoint (Or.inl (by decide)), set8_self]
  have hlength : (segmentRequest f NotLast toggle cnt p out hp).uint16 posLength
      = (segmentCommand f NotLast).2 := by
    rw [segmentRequest, uint16_copy_disjoint (Or.inl (by decide)), uint16_copy_disjoint (by decide),
      sdoHeader_length]
  have hslice : (segmentRequest f NotLast toggle cnt p out hp).slice posIndex f = p.slice hp f := by
    rw [segmentRequest, slice_copy le_rfl]
    rfl
  obtain ⟨hkind, hbit, hmore, hsize⟩ := segmentCommand_spec NotLast htoggle hf hf'
  have hdata : requestData (segmentRequest f NotLast toggle cnt p out hp) = f := by
    rw [requestData, hcommand, hlength]
    exact hsize
  rw [respond_downloadSegment rules (by rw [hcommand, hkind]), downloadSegment, htransfer]
  simp only [hdata, hslice, hcommand, hbit, if_true, hmore]
  cases NotLast with
  | true => rw [if_pos rfl, if_pos rfl]
  | false =>
      rw [if_neg Bool.false_ne_true, if_neg Bool.false_ne_true, if_pos (hlast rfl)]

/-- What goes into a frame is what is left, but no more than there is room for. -/
theorem frameData_eq {left room : ℕ} (hleft : left < 65536) (hroom : room < 65536) :
  frameData left room = (min left room, decide (room < left))
  := by
  rw [frameData, Int.emod_eq_of_lt (by omega) (by omega)]
  split
  case isTrue h =>
    rw [Int.emod_eq_of_lt (by omega) (by omega), min_eq_right (by omega), Int.toNat_natCast,
      decide_eq_true (by omega)]
  case isFalse h =>
    rw [min_eq_left (by omega), Int.toNat_natCast, decide_eq_false (by omega)]

/-- A server that has received an object completely confirms or refuses it, and the master takes the
answer for what it is. -/
theorem finish_written (hserves : Serves link slave rules time server)
    (hTimeout : time ≤ Timeout) (Index : UInt16) (SubIdx : UInt8) {confirm : Bytes}
    (hout : out.ZeroFrom slave.mbx_l.toNat) (hobjects : s.objects = (server x₀.link).objects)
    (hfinish : (server x.link).respond rules out = s.finish rules confirm key value)
    (herrors : x.errors = x₀.errors) :
  ∃ b, (exchange link slave Timeout out x).answer = some b
    ∧ (b = confirm ∧ Written link slave rules server Index SubIdx key value x₀
        (exchange link slave Timeout out x).x (exchange link slave Timeout out x).wkc
      ∨ (∃ AbortCode, b = sdoAbort AbortCode key)
        ∧ Written link slave rules server Index SubIdx key value x₀
          (unexpected link slave Index SubIdx b (exchange link slave Timeout out x).x) 0)
  := by
  rw [SdoServer.finish] at hfinish
  split at hfinish
  case isTrue haccepts =>
    obtain ⟨t, hexchange, ht⟩ := hserves.exchange hTimeout hout hfinish
    rw [hexchange]
    refine ⟨_, rfl, .inl ⟨rfl, ?_, ?_, ?_, ?_⟩⟩
    · rw [ht]
    · rw [ht]
    · intro _
      rw [ht, hobjects]
      exact ⟨rfl, rfl, herrors⟩
    · intro hrefuses
      rw [← hobjects, haccepts] at hrefuses
      cases hrefuses
  case isFalse hrefuses =>
    obtain ⟨t, hexchange, ht⟩ := hserves.exchange hTimeout hout hfinish
    rw [hexchange]
    refine ⟨_, rfl, .inr ⟨⟨_, rfl⟩, ?_⟩⟩
    rw [unexpected_sdoAbort]
    refine ⟨?_, ?_, ?_, ?_⟩
    · rw [ht]
    · rw [ht]
    · intro haccepts
      rw [← hobjects] at haccepts
      exact absurd haccepts hrefuses
    · intro _
      rw [ht]
      refine ⟨rfl, hobjects, ?_⟩
      rw [← hobjects, ← herrors]

variable (slave server key n p x₀) in
/-- The state between two segments of a download. -/
structure Downloading (d : Download σ) : Prop where
  mailbox : (server d.x.link).mailbox = none
  objects : (server d.x.link).objects = (server x₀.link).objects
  errors : d.x.errors = x₀.errors
  out : d.MbxOut.ZeroFrom slave.mbx_l.toNat
  psize : d.psize = n - d.hp
  hp_lt : d.hp < n
  toggle : IsToggle d.toggle
  transfer : (server d.x.link).transfer = .download key n (p.take d.hp) d.toggle

theorem take_append_slice (p : Bytes) (m n : ℕ) :
  p.take m ++ p.slice m n = p.take (m + n)
  := by
  have htake : ∀ k, p.take k = p.slice 0 k := by
    intro k
    rw [slice]
    congr 1
    funext i
    rw [drop, Nat.zero_add]
  rw [htake, htake, slice_add, Nat.zero_add]

/-- The confirmation of a segment is the answer expected. -/
theorem isSegmentConfirm {toggle : UInt8} (htoggle : IsToggle toggle) :
  isSdoResponse (sdoConfirm (0x20 ||| toggle) key) = true
    ∧ sdoConfirm (0x20 ||| toggle) key posCommand &&& 0xe0 = 0x20
  := by
  refine ⟨sdoConfirm_isSdoResponse, ?_⟩
  rw [sdoConfirm, coeAnswer_command]
  rcases htoggle with rfl | rfl
  · rfl
  · rfl

/-- A segment brings the next part of the object, or its end. -/
theorem Downloading.segment (hserves : Serves link slave rules time server)
    (hTimeout : time ≤ Timeout) {d d' : Download σ} {room : ℕ}
    (h : Downloading slave server key p n x₀ d) (hn : n < 65536) (hroom : 7 ≤ room)
    (hroom' : room + 9 ≤ slave.mbx_l.toNat)
    (hd' : d.segment link slave Index SubIdx p Timeout room = d') :
  d.hp < d'.hp ∧ (d'.NotLast = true ∧ Downloading slave server key p n x₀ d'
    ∨ d'.NotLast = false
      ∧ Written link slave rules server Index SubIdx key (p.take n) x₀ d'.x d'.wkc)
  := by
  have hmbx_l := slave.mbx_l.toNat_lt
  have hlt := h.hp_lt
  have hleft : d.psize = ((n - d.hp : ℕ) : ℤ) := by
    rw [h.psize]
    omega
  have hframe : frameData ((n - d.hp : ℕ) : ℤ) room
      = (min (n - d.hp) room, decide (room < n - d.hp)) :=
    frameData_eq (by omega) (by omega)
  generalize hf : min (n - d.hp) room = f at hframe
  have hout : ∀ NotLast,
      (segmentRequest f NotLast d.toggle d.x.next.mbx_cnt p d.MbxOut d.hp).ZeroFrom
        slave.mbx_l.toNat := by
    intro NotLast
    rw [segmentRequest]
    refine ((sdoHeader_zeroFrom h.out (by omega)).copy ?_).copy ?_
    · rw [posCommand]
      omega
    · rw [posIndex]
      omega
  rw [Download.segment, hleft, hframe] at hd'
  dsimp only at hd'
  cases hmore : decide (room < n - d.hp) with
  | true =>
      have hroomf : room < n - d.hp := of_decide_eq_true hmore
      rw [hmore] at hd'
      have hrespond := respond_segment rules true p d.MbxOut d.hp d.x.next.mbx_cnt h.toggle
        (s := server d.x.next.link) (f := f) (by omega) (by omega) h.transfer
        (fun hlast => by cases hlast)
      rw [if_pos rfl, take_append_slice] at hrespond
      obtain ⟨t, hexchange, ht⟩ := hserves.exchange hTimeout (hout true) hrespond
      rw [segmentRequest] at hexchange
      rw [hexchange] at hd'
      dsimp only at hd'
      rw [if_pos (isSegmentConfirm h.toggle)] at hd'
      subst hd'
      refine ⟨by dsimp only; omega,
        .inl ⟨rfl, by rw [ht], by rw [ht]; exact h.objects, h.errors, hout true, ?_, ?_,
          h.toggle.next, by rw [ht]⟩⟩
      · dsimp only
        omega
      · dsimp only
        omega
  | false =>
      have hroomf : ¬ room < n - d.hp := of_decide_eq_false hmore
      rw [hmore] at hd'
      have hend : d.hp + f = n := by omega
      have hrespond := respond_segment rules false p d.MbxOut d.hp d.x.next.mbx_cnt h.toggle
        (s := server d.x.next.link) (f := f) (by omega) (by omega) h.transfer
        (fun _ => by rw [take_append_slice, hend, length_take])
      rw [if_neg Bool.false_ne_true, take_append_slice, hend] at hrespond
      obtain ⟨b, hanswer, hwritten⟩ := finish_written hserves hTimeout Index SubIdx (hout false)
        h.objects hrespond h.errors
      simp only [segmentRequest] at hanswer hwritten
      rw [hanswer] at hd'
      dsimp only at hd'
      rcases hwritten with ⟨rfl, hwritten⟩ | ⟨⟨AbortCode, rfl⟩, hwritten⟩
      · rw [if_pos (isSegmentConfirm h.toggle)] at hd'
        subst hd'
        exact ⟨by dsimp only; omega, .inr ⟨rfl, hwritten⟩⟩
      · rw [sdoAbort_isSdoResponse, if_neg (fun h => Bool.false_ne_true h.1)] at hd'
        subst hd'
        exact ⟨by dsimp only; omega, .inr ⟨rfl, hwritten⟩⟩

/-- The confirmation of the request is the answer expected. -/
theorem isDownloadAnswer_confirm (hindex : out.uint16 posIndex = key.index)
    (hsub : out posSubIndex = key.subindex) (Command : UInt8) :
  isDownloadAnswer out (sdoConfirm Command key) = true
  := by
  rw [isDownloadAnswer, sdoConfirm_isSdoResponse, sdoConfirm, coeAnswer_index, coeAnswer_subIndex,
    hindex, hsub]
  simp

theorem isDownloadAnswer_abort (AbortCode : UInt32) :
  isDownloadAnswer out (sdoAbort AbortCode key) = false
  := by
  rw [isDownloadAnswer, sdoAbort_isSdoResponse]
  simp

theorem expedited_confirmed (Command : UInt8) :
  isDownloadAnswer (expeditedRequest Index SubIdx n p cnt)
    (sdoConfirm Command ⟨Index, SubIdx, false⟩) = true
  := by
  apply isDownloadAnswer_confirm
  · rw [expeditedRequest, uint16_copy_disjoint (Or.inl (by decide)), sdoObject_index]
  · rw [expeditedRequest, copy_disjoint (Or.inl (by decide)), sdoObject_subIndex]

theorem download_confirmed (Command : UInt8) :
  isDownloadAnswer (downloadRequest Index SubIdx CA n p f cnt)
    (sdoConfirm Command ⟨Index, if CA ∧ 1 < SubIdx then 1 else SubIdx, CA⟩) = true
  := by
  apply isDownloadAnswer_confirm
  · rw [downloadRequest, uint16_copy_disjoint (Or.inl (by decide)),
      uint16_copy_disjoint (by decide), sdoObject_index]
  · rw [downloadRequest, copy_disjoint (Or.inl (by decide)), set32_disjoint (by decide),
      sdoObject_subIndex]

/-- The loop over the segments ends when the object is complete. -/
theorem Downloading.ends (hserves : Serves link slave rules time server)
    (hTimeout : time ≤ Timeout) (Index : UInt16) (SubIdx : UInt8) (room : ℕ) {d : Download σ}
    {fuel : ℕ} (h : Downloading slave server key p n x₀ d) (hmore : d.NotLast = true)
    (hn : n < 65536) (hroom : 7 ≤ room) (hroom' : room + 9 ≤ slave.mbx_l.toNat)
    (hfuel : n ≤ fuel) :
  ∃ d', loop Download.NotLast (Download.segment link slave Index SubIdx p Timeout room) fuel d
      = some d'
    ∧ Written link slave rules server Index SubIdx key (p.take n) x₀ d'.x d'.wkc
  := by
  let I : Download σ → Prop := fun d =>
    d.NotLast = true ∧ Downloading slave server key p n x₀ d
      ∨ d.NotLast = false
        ∧ Written link slave rules server Index SubIdx key (p.take n) x₀ d.x d.wkc
  have hbody : ∀ d, I d → d.NotLast = true →
      I (d.segment link slave Index SubIdx p Timeout room)
        ∧ n - (d.segment link slave Index SubIdx p Timeout room).hp < n - d.hp := by
    rintro d (⟨-, hd⟩ | ⟨hnot, -⟩) hmore
    · obtain ⟨hless, hnext⟩ := hd.segment hserves hTimeout hn hroom hroom' rfl
      have := hd.hp_lt
      exact ⟨hnext, by omega⟩
    · rw [hmore] at hnot
      cases hnot
  obtain ⟨d', hloop, hd' | hd', hlast⟩ := Loop.ends I (fun d => n - d.hp) hbody
    (.inl ⟨hmore, h⟩) ((Nat.sub_le _ _).trans hfuel)
  · rw [hlast] at hd'
    cases hd'.1
  · exact ⟨d', hloop, hd'.2⟩

/-- A download brings an object of any size below 64 kB into the slave, whatever message is left in
its mailbox: it is stored and the work counter is 1, or the slave refuses it, keeps its objects, and
the abort is reported. -/
theorem ecxSDOwrite_written (hserves : Serves link slave rules time server)
    (hTimeout : time ≤ Timeout) (Index : UInt16) (SubIdx : UInt8) (CA : Bool) {n : ℕ} (p : Bytes)
    {fuel : ℕ} {x : CoeState σ} (hx : Settled link slave server x) (hn : 0 < n) (hn' : n < 65536)
    (hfuel : n ≤ fuel) :
  ∃ wkc x', ecxSDOwrite link slave Index SubIdx CA n p Timeout fuel x = some (wkc, x')
    ∧ Written link slave rules server Index SubIdx
      ⟨Index, if CA ∧ 1 < SubIdx then 1 else SubIdx, CA⟩ (p.take n) x x' wkc
  := by
  obtain ⟨hmbx, hmbx'⟩ := hserves.mbx_l
  rw [ecMaxmbx] at hmbx'
  obtain ⟨hobjects, herrors⟩ := hx.begins hserves
  rw [ecxSDOwrite]
  dsimp only
  generalize (emptyMbx link slave x).next = x₁ at hobjects herrors ⊢
  split
  case isTrue hsmall =>
    obtain ⟨hsize, hCA⟩ := hsmall
    rw [Bool.not_eq_true'] at hCA
    subst hCA
    rw [if_neg (fun h => Bool.false_ne_true h.1)]
    have hout : (expeditedRequest Index SubIdx n p x₁.mbx_cnt).ZeroFrom slave.mbx_l.toNat := by
      rw [expeditedRequest]
      refine (sdoRequest_zeroFrom ecClearmbx_zeroFrom hmbx).copy ?_
      rw [posLdata, Int.toNat_natCast]
      omega
    obtain ⟨b, hanswer, hwritten⟩ := finish_written hserves hTimeout Index SubIdx hout hobjects
      (respond_expedited rules x₁.mbx_cnt hn (by omega)) herrors
    rw [hanswer]
    dsimp only
    rcases hwritten with ⟨rfl, hwritten⟩ | ⟨⟨AbortCode, rfl⟩, hwritten⟩
    · rw [if_pos (expedited_confirmed _)]
      exact ⟨_, _, rfl, hwritten⟩
    · rw [isDownloadAnswer_abort, if_neg Bool.false_ne_true]
      exact ⟨_, _, rfl, hwritten⟩
  case isFalse =>
    have hmaxdata : (slave.mbx_l.toNat : ℤ) - 0x10 = ((slave.mbx_l.toNat - 16 : ℕ) : ℤ) := by
      omega
    have hloop : (slave.mbx_l.toNat : ℤ) - 0x10 + 7 = ((slave.mbx_l.toNat - 9 : ℕ) : ℤ) := by
      omega
    have hframe : frameData (n : ℤ) ((slave.mbx_l.toNat - 16 : ℕ) : ℤ)
        = (min n (slave.mbx_l.toNat - 16), decide (slave.mbx_l.toNat - 16 < n)) :=
      frameData_eq hn' (by omega)
    rw [hloop, hmaxdata, hframe]
    dsimp only
    generalize hf : min n (slave.mbx_l.toNat - 16) = f
    have hout : (downloadRequest Index SubIdx CA n p f x₁.mbx_cnt).ZeroFrom slave.mbx_l.toNat := by
      rw [downloadRequest]
      refine ((sdoRequest_zeroFrom ecClearmbx_zeroFrom hmbx).copy hmbx).copy ?_
      rw [posLdata1]
      omega
    have hrespond := respond_download rules Index SubIdx CA p x₁.mbx_cnt (s := server x₁.link) hn'
      (f := f) (by omega) (by omega)
    split at hrespond
    case isTrue hless =>
      have hmore : slave.mbx_l.toNat - 16 < n := by omega
      obtain ⟨t', hexchange, ht'⟩ := hserves.exchange hTimeout hout hrespond
      rw [hexchange]
      dsimp only
      rw [if_pos (download_confirmed _)]
      have hstart : Downloading slave server
          ⟨Index, if CA ∧ 1 < SubIdx then 1 else SubIdx, CA⟩ p n x
          { MbxOut := downloadRequest Index SubIdx CA n p f x₁.mbx_cnt
            hp := f
            psize := n - f
            toggle := 0
            NotLast := decide (slave.mbx_l.toNat - 16 < n)
            wkc := 1
            x := { x₁ with link := t' } } :=
        ⟨by rw [ht'], by rw [ht']; exact hobjects, herrors, hout, rfl, hless, .inl rfl, by rw [ht']⟩
      obtain ⟨d', hd', hwritten⟩ := hstart.ends hserves hTimeout Index SubIdx
        (slave.mbx_l.toNat - 9) (decide_eq_true hmore) hn' (by omega) (by omega) hfuel
      rw [hd']
      exact ⟨_, _, rfl, hwritten⟩
    case isFalse hnot =>
      have hlast : ¬ slave.mbx_l.toNat - 16 < n := by omega
      obtain ⟨b, hanswer, hwritten⟩ := finish_written hserves hTimeout Index SubIdx hout
        hobjects hrespond herrors
      rw [hanswer]
      dsimp only
      rcases hwritten with ⟨rfl, hwritten⟩ | ⟨⟨AbortCode, rfl⟩, hwritten⟩
      · rw [if_pos (download_confirmed _), Loop.loop_of_not]
        · exact ⟨_, _, rfl, hwritten⟩
        · exact decide_eq_false hlast
      · rw [isDownloadAnswer_abort, if_neg Bool.false_ne_true]
        exact ⟨_, _, rfl, hwritten⟩

end Download

/-- A slave with mailboxes of twenty bytes. -/
def smallSlave : MbxSlave := ⟨1, 0x1001, 20, 0x1000, 20, 0x1080⟩

/-- What it accepts. -/
def smallRules : SdoRules := ⟨20, fun _ _ _ => true, fun _ _ _ => 0⟩

/-- Its answers are in the mailbox at the third look. -/
theorem smallSlave_serves :
  Serves (SdoSlave.link smallRules smallSlave) smallSlave smallRules 2 (@SdoSlave.server 2)
  := SdoSlave.serves _ _ (by decide) (by decide) (by decide) (by decide) (by decide) (by decide)

/-- An object of twenty bytes is written in three parts through a mailbox of twenty bytes. -/
theorem ecxSDOwrite_written_segments :
  ∃ wkc x', ecxSDOwrite (SdoSlave.link smallRules smallSlave) smallSlave 0x2000 0 true 20
      (fun i => i.toUInt8) 2 20 (⟨⟨⟨fun _ => [], .idle, none⟩, 0, by decide⟩, 0, .init⟩ :
        CoeState (SdoSlave 2)) = some (wkc, x')
    ∧ wkc = 1
    ∧ x'.link.server.objects ⟨0x2000, 0, true⟩ = (List.range 20).map fun i => i.toUInt8
  := by
  obtain ⟨wkc, x', hrun, hwritten⟩ := ecxSDOwrite_written smallSlave_serves (le_refl 2) 0x2000 0
    true (fun i => i.toUInt8)
    (x := ⟨⟨⟨fun _ => [], .idle, none⟩, 0, by decide⟩, 0, .init⟩) (Settled.of_none rfl)
    (by decide : 0 < 20) (by decide) (le_refl 20)
  obtain ⟨hwkc, hobjects, -⟩ := hwritten.stored rfl
  refine ⟨wkc, x', hrun, hwkc, ?_⟩
  rw [hobjects, if_neg (by decide)]
  apply Function.update_self

end EthercatMaster
