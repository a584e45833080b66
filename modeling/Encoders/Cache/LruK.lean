import Encoders.Cache.Scratchpad
import Encoders.Lib.Double

/-!
# `EvictStrategyLRU_K`

The strategy evicts by the time of the `k`-th last use of an object. It keeps the last `k` values
of an object on the scratchpad, under the names `K1`, `K2` and so on, and beside them, under a name
of its own, how many there have been. The count only grows, and the window of `k` names moves with
it.

The names of the values do not say whose they are. So a window is what `Noted` says as long as one
strategy alone updates an object, and two strategies write over each other.
-/

namespace Encoders.Cache

open Encoders.Lib Encoders.Data

/-- `getTimeAsMilliSecondsDouble` -/
def getTimeAsMilliSecondsDouble (t : Timeval) : ℚ :=
  nearestDouble (nearestDouble (nearestDouble t.sec * 1000) + nearestDouble (t.usec / 1000))

/-- `class EvictStrategyLRU_K`, as configured: `k` is an `unsigned int`. -/
structure EvictStrategyLRU_K where
  name : CString
  countType : CString
  k : Nat
  k_pos : 1 ≤ k
  k_lt : k < 4294967296
deriving DecidableEq

/-- The name of a value, printed by `K%lu`. -/
def kEntry (n : Nat) : CString := lit "K" ++ ascii (Nat.toDigits 10 n)

/-- The whole number a `double` is cast to. -/
def toUnsignedLongLong (x : ℚ) : Nat := ⌊x⌋.toNat

namespace EvictStrategyLRU_K

/-- `paramHistoryName` -/
def paramHistoryName (s : EvictStrategyLRU_K) : CString := s.name ++ lit "_LRU_history"

/-- `paramValueK`: the time or the count. -/
def paramValueK (s : EvictStrategyLRU_K) (count : UInt32) (time : Timeval) : ℚ :=
  if s.countType = lit "TIME" then getTimeAsMilliSecondsDouble time else count.toNat

/-- `updateInfoDataObject` -/
def updateInfoDataObject (s : EvictStrategyLRU_K) (pad : ScratchpadManager) (dObjId : CString)
    (count : UInt32) (time : Timeval) : ScratchpadManager :=
  let paramValueK := s.paramValueK count time
  if pad.hasScratchpadAttributeDouble dObjId s.paramHistoryName then
    let paramValueHistory := pad.getScratchpadAttributeDouble dObjId s.paramHistoryName
    if paramValueHistory < s.k then
      let paramValueHistory := toDouble (paramValueHistory + 1)
      let pad := pad.setScratchpadAttributeDouble dObjId s.paramHistoryName paramValueHistory
      pad.setScratchpadAttributeDouble dObjId (kEntry (toUnsignedLongLong paramValueHistory))
        paramValueK
    else
      -- a history of `k` values: the oldest goes
      let oldest :=
        (toUnsignedLongLong paramValueHistory + 18446744073709551616 - s.k + 1) %
          18446744073709551616
      let pad := pad.removeScratchpadAttribute dObjId (kEntry oldest)
      let paramValueHistory := toDouble (paramValueHistory + 1)
      let pad := pad.setScratchpadAttributeDouble dObjId s.paramHistoryName paramValueHistory
      pad.setScratchpadAttributeDouble dObjId (kEntry (toUnsignedLongLong paramValueHistory))
        paramValueK
  else
    let pad := pad.setScratchpadAttributeDouble dObjId s.paramHistoryName 1
    pad.setScratchpadAttributeDouble dObjId (kEntry 1) paramValueK

/-- `getEvictValueForDataObject`. Whole numbers up to `2 ^ 53` are subtracted: nothing rounds. -/
def getEvictValueForDataObject (s : EvictStrategyLRU_K) (pad : ScratchpadManager)
    (dObjId : CString) : ℚ :=
  if pad.hasScratchpadAttributeDouble dObjId s.paramHistoryName then
    let paramValueHistory := pad.getScratchpadAttributeDouble dObjId s.paramHistoryName
    let kentry : Int := ⌊paramValueHistory - s.k + 1⌋
    let kentry := if kentry < 1 then 1 else kentry
    pad.getScratchpadAttributeDouble dObjId (kEntry kentry.toNat)
  else 0

end EvictStrategyLRU_K

variable {calls : List UpdateCall} {strategies : List EvictStrategyLRU_K}

/-! ## Names -/

theorem isAscii_digits {n : Nat} : ∀ c ∈ Nat.toDigits 10 n, c.toNat < 128 := by
  intro c hc
  have hdigit := toNat_isDigit (isDigit_toDigits hc)
  omega

theorem kEntry_injective {n m : Nat} (h : kEntry n = kEntry m) : n = m := by
  have hdigits := ascii_injective isAscii_digits isAscii_digits (List.append_cancel_left h)
  rw [← leadingNumber_toDigits n, hdigits, leadingNumber_toDigits]

/-- A name of a value has no underscore. -/
theorem kEntry_ne_history (n : Nat) (s : EvictStrategyLRU_K) : kEntry n ≠ s.paramHistoryName := by
  intro h
  have hmem : (95 : UInt8) ∈ kEntry n := by
    rw [h]
    exact List.mem_append_right _ (by decide)
  rcases List.mem_append.mp hmem with hK | hdigit
  · exact absurd hK (by decide)
  · obtain ⟨c, hc, hbyte⟩ := List.mem_map.mp hdigit
    have hrange := toNat_isDigit (isDigit_toDigits hc)
    have hnat := congrArg UInt8.toNat hbyte
    rw [UInt8.toNat_ofNat'] at hnat
    have h95 : (95 : UInt8).toNat = 95 := rfl
    omega

theorem history_injective {s t : EvictStrategyLRU_K} (h : s.paramHistoryName = t.paramHistoryName) :
    s.name = t.name := List.append_cancel_right h

/-! ## The window -/

/-- What the pad says about an object of a strategy that has been told `values`, newest first. -/
structure Noted (s : EvictStrategyLRU_K) (pad : ScratchpadManager) (dObjId : CString)
    (values : List ℚ) : Prop where
  history : pad.number dObjId s.paramHistoryName = some ((min values.length (2 ^ 53) : ℕ) : ℚ)
  window : ∀ i < values.length, i < s.k →
    pad.number dObjId (kEntry (min values.length (2 ^ 53) - i)) = values[i]?

/-- The count has not stopped, or the window is one value wide. -/
def Counted (s : EvictStrategyLRU_K) (n : Nat) : Prop := s.k = 1 ∨ n ≤ 2 ^ 53

variable {s : EvictStrategyLRU_K} {pad : ScratchpadManager} {dObjId : CString}
  {count : UInt32} {time : Timeval}

theorem toUnsignedLongLong_natCast (n : ℕ) : toUnsignedLongLong (n : ℚ) = n := by
  unfold toUnsignedLongLong
  rw [Int.floor_natCast, Int.toNat_natCast]

/-- What the update leaves, in terms of the name that goes, if one does. -/
theorem update_eq {n : ℕ} (h : pad.number dObjId s.paramHistoryName = some ((n : ℕ) : ℚ)) :
    ∃ pad' : ScratchpadManager,
      s.updateInfoDataObject pad dObjId count time =
        (pad'.setScratchpadAttributeDouble dObjId s.paramHistoryName
          (toDouble (n + 1))).setScratchpadAttributeDouble dObjId
            (kEntry (toUnsignedLongLong (toDouble (n + 1)))) (s.paramValueK count time) ∧
      (pad' = pad ∧ n < s.k ∨
        pad' = pad.removeScratchpadAttribute dObjId
          (kEntry ((n + 18446744073709551616 - s.k + 1) % 18446744073709551616)) ∧ s.k ≤ n) := by
  unfold EvictStrategyLRU_K.updateInfoDataObject
  rw [ScratchpadManager.has_eq_number, ScratchpadManager.get_eq_number, h]
  simp only [Option.isSome_some, if_true, Option.getD_some, toUnsignedLongLong_natCast,
    Nat.cast_lt]
  by_cases hk : n < s.k
  · exact ⟨pad, by rw [if_pos hk], .inl ⟨rfl, hk⟩⟩
  · exact ⟨_, by rw [if_neg hk], .inr ⟨rfl, not_lt.mp hk⟩⟩

/-- The first update. -/
theorem Noted.first (h : pad.number dObjId s.paramHistoryName = none) :
    Noted s (s.updateInfoDataObject pad dObjId count time) dObjId [s.paramValueK count time] := by
  have hupdate : s.updateInfoDataObject pad dObjId count time =
      (pad.setScratchpadAttributeDouble dObjId s.paramHistoryName 1).setScratchpadAttributeDouble
        dObjId (kEntry 1) (s.paramValueK count time) := by
    unfold EvictStrategyLRU_K.updateInfoDataObject
    rw [ScratchpadManager.has_eq_number, h]
    rfl
  rw [hupdate]
  refine ⟨?_, fun i hi _ => ?_⟩
  · rw [ScratchpadManager.number_set, if_neg (fun h => kEntry_ne_history 1 s h.2.symm),
      ScratchpadManager.number_set, if_pos ⟨rfl, rfl⟩]
    norm_num
  · obtain rfl : i = 0 := Nat.lt_one_iff.mp hi
    rw [ScratchpadManager.number_set, if_pos ⟨rfl, by norm_num⟩]
    rfl

/-- **Another update moves the window by one.** -/
theorem Noted.next {values : List ℚ} (h : Noted s pad dObjId values)
    (hcount : Counted s (values.length + 1)) :
    Noted s (s.updateInfoDataObject pad dObjId count time) dObjId
      (s.paramValueK count time :: values) := by
  obtain ⟨pad', hupdate, hpad'⟩ := @update_eq s pad dObjId count time _ h.history
  have hnext := toDouble_min_add_one values.length
  rw [hupdate, hnext, toUnsignedLongLong_natCast]
  refine ⟨?_, fun i hi hik => ?_⟩
  · rw [ScratchpadManager.number_set, if_neg (fun h => kEntry_ne_history _ s h.2.symm),
      ScratchpadManager.number_set, if_pos ⟨rfl, rfl⟩, List.length_cons]
  · rw [List.length_cons] at hi ⊢
    cases i with
    | zero =>
        rw [ScratchpadManager.number_set, if_pos ⟨rfl, rfl⟩]
        rfl
    | succ i =>
        -- an older value: neither written over nor the one that goes
        have hn : values.length + 1 ≤ 2 ^ 53 := hcount.resolve_left (by omega)
        have hwindow := h.window i (by omega) (by omega)
        rw [min_eq_left (by omega)] at hwindow hpad' ⊢
        rw [ScratchpadManager.number_set, if_neg, ScratchpadManager.number_set, if_neg,
          List.getElem?_cons_succ, show values.length + 1 - (i + 1) = values.length - i by omega]
        · rcases hpad' with ⟨rfl, -⟩ | ⟨rfl, hk⟩
          · exact hwindow
          · rw [ScratchpadManager.number_remove, if_neg, hwindow]
            intro hsame
            have hindex := kEntry_injective hsame.2
            omega
        · exact fun hsame => kEntry_ne_history _ s hsame.2
        · intro hsame
          have hindex := kEntry_injective hsame.2
          omega

/-- What the strategy says of a window. -/
theorem Noted.value {values : List ℚ} (h : Noted s pad dObjId values) (hne : values ≠ [])
    (hcount : Counted s values.length) :
    some (s.getEvictValueForDataObject pad dObjId) =
      values[min (s.k - 1) (values.length - 1)]? := by
  have hlen : 0 < values.length := List.length_pos_iff.mpr hne
  have hk := s.k_pos
  have hk32 := s.k_lt
  unfold EvictStrategyLRU_K.getEvictValueForDataObject
  simp only [ScratchpadManager.has_eq_number, ScratchpadManager.get_eq_number, h.history,
    Option.isSome_some, if_true, Option.getD_some]
  -- where the window starts
  have hfloor : ⌊((min values.length (2 ^ 53) : ℕ) : ℚ) - s.k + 1⌋ =
      ((min values.length (2 ^ 53) : ℕ) : ℤ) - s.k + 1 := by
    have hcast : ((min values.length (2 ^ 53) : ℕ) : ℚ) - s.k + 1 =
        ((((min values.length (2 ^ 53) : ℕ) : ℤ) - s.k + 1 : ℤ) : ℚ) := by push_cast; ring
    rw [hcast, Int.floor_intCast]
  have hentry : (if ((min values.length (2 ^ 53) : ℕ) : ℤ) - s.k + 1 < 1 then 1
      else ((min values.length (2 ^ 53) : ℕ) : ℤ) - s.k + 1).toNat =
        min values.length (2 ^ 53) - min (s.k - 1) (values.length - 1) := by
    rcases hcount with hone | hfew
    · split <;> omega
    · split <;> omega
  have hwindow := h.window (min (s.k - 1) (values.length - 1)) (by omega) (by omega)
  rw [hfloor, hentry, hwindow]
  have hlt : min (s.k - 1) (values.length - 1) < values.length := by omega
  rw [List.getElem?_eq_getElem hlt, Option.getD_some]

/-- Where there has been no update there is no value. -/
theorem value_of_none (h : pad.number dObjId s.paramHistoryName = none) :
    s.getEvictValueForDataObject pad dObjId = 0 := by
  unfold EvictStrategyLRU_K.getEvictValueForDataObject
  rw [ScratchpadManager.has_eq_number, h]
  rfl

/-- An update of one object leaves the notes of every other, and on the object itself the notes
that are neither values nor the strategy's own count. -/
theorem number_update_of_ne {id' name' : CString}
    (hne : id' = dObjId → name' ≠ s.paramHistoryName ∧ ∀ n, name' ≠ kEntry n) :
    (s.updateInfoDataObject pad dObjId count time).number id' name' = pad.number id' name' := by
  have hhistory : ¬(id' = dObjId ∧ name' = s.paramHistoryName) := fun h => (hne h.1).1 h.2
  have hentry : ∀ n, ¬(id' = dObjId ∧ name' = kEntry n) := fun n h => (hne h.1).2 n h.2
  unfold EvictStrategyLRU_K.updateInfoDataObject
  dsimp only
  split_ifs
  · rw [ScratchpadManager.number_set, if_neg (hentry _), ScratchpadManager.number_set,
      if_neg hhistory]
  · rw [ScratchpadManager.number_set, if_neg (hentry _), ScratchpadManager.number_set,
      if_neg hhistory, ScratchpadManager.number_remove, if_neg (hentry _)]
  · rw [ScratchpadManager.number_set, if_neg (hentry _), ScratchpadManager.number_set,
      if_neg hhistory]

theorem Noted.of_eq {pad' : ScratchpadManager} {values : List ℚ} (h : Noted s pad dObjId values)
    (heq : ∀ name, pad'.number dObjId name = pad.number dObjId name) :
    Noted s pad' dObjId values where
  history := by rw [heq, h.history]
  window i hi hik := by rw [heq, h.window i hi hik]

/-! ## Runs -/

/-- A call of `updateInfoDataObject`. -/
structure UpdateCall where
  strategy : EvictStrategyLRU_K
  dObjId : CString
  count : UInt32
  time : Timeval

/-- The value that a call reports. -/
def UpdateCall.value (c : UpdateCall) : ℚ := c.strategy.paramValueK c.count c.time

def ScratchpadManager.call (pad : ScratchpadManager) (c : UpdateCall) : ScratchpadManager :=
  c.strategy.updateInfoDataObject pad c.dObjId c.count c.time

/-- The pad after some calls. -/
def ScratchpadManager.after (pad : ScratchpadManager) (calls : List UpdateCall) :
    ScratchpadManager := calls.foldl ScratchpadManager.call pad

/-- The values that a strategy was told about an object, oldest first. -/
def updatesOf (s : EvictStrategyLRU_K) (dObjId : CString) (calls : List UpdateCall) : List ℚ :=
  (calls.filter (fun c => c.strategy = s ∧ c.dObjId = dObjId)).map UpdateCall.value

/-- The `k`-th last value, or the first if there are fewer. -/
def kthMostRecent (k : Nat) (values : List ℚ) : Option ℚ :=
  values.reverse[min (k - 1) (values.length - 1)]?

theorem updatesOf_append_own (calls : List UpdateCall) (c : UpdateCall) :
    updatesOf c.strategy c.dObjId (calls ++ [c]) =
      updatesOf c.strategy c.dObjId calls ++ [c.value] := by
  unfold updatesOf
  rw [List.filter_append, List.map_append, List.filter_cons_of_pos (by simp)]
  rfl

theorem updatesOf_append_other {c : UpdateCall} (calls : List UpdateCall)
    (h : ¬(c.strategy = s ∧ c.dObjId = dObjId)) :
    updatesOf s dObjId (calls ++ [c]) = updatesOf s dObjId calls := by
  unfold updatesOf
  rw [List.filter_append, List.filter_cons_of_neg (by simpa using h), List.filter_nil,
    List.append_nil]

theorem after_append (pad : ScratchpadManager) (calls : List UpdateCall) (c : UpdateCall) :
    pad.after (calls ++ [c]) = (pad.after calls).call c := by
  unfold ScratchpadManager.after
  rw [List.foldl_append]
  rfl

/-- No object is updated by two strategies, and no count stops while more than one value is
needed. -/
structure Undisturbed (calls : List UpdateCall) : Prop where
  alone : ∀ c ∈ calls, ∀ c' ∈ calls, c.dObjId = c'.dObjId → c.strategy = c'.strategy
  counted : ∀ c ∈ calls,
    Counted c.strategy (updatesOf c.strategy c.dObjId calls).length

/-- What the pad says about a strategy and an object after some calls. -/
def Told (s : EvictStrategyLRU_K) (pad : ScratchpadManager) (dObjId : CString)
    (values : List ℚ) : Prop :=
  if values = [] then pad.number dObjId s.paramHistoryName = none
  else Noted s pad dObjId values.reverse

theorem length_updatesOf_le (calls behind : List UpdateCall) :
    (updatesOf s dObjId calls).length ≤ (updatesOf s dObjId (calls ++ behind)).length := by
  unfold updatesOf
  rw [List.length_map, List.length_map, List.filter_append, List.length_append]
  exact Nat.le_add_right _ _

theorem Counted.mono {n m : Nat} (h : Counted s m) (hle : n ≤ m) : Counted s n :=
  h.imp id hle.trans

/-- The first calls of an undisturbed run are undisturbed. -/
theorem Undisturbed.init {behind : List UpdateCall} (h : Undisturbed (calls ++ behind)) :
    Undisturbed calls where
  alone a ha b hb := h.alone a (List.mem_append_left _ ha) b (List.mem_append_left _ hb)
  counted a ha :=
    (h.counted a (List.mem_append_left _ ha)).mono (length_updatesOf_le calls behind)

theorem mem_of_updatesOf_ne_nil (h : updatesOf s dObjId calls ≠ []) :
    ∃ c ∈ calls, c.strategy = s ∧ c.dObjId = dObjId := by
  obtain ⟨v, hv⟩ := List.exists_mem_of_ne_nil _ h
  obtain ⟨c, hc, -⟩ := List.mem_map.mp hv
  obtain ⟨hmem, hown⟩ := List.mem_filter.mp hc
  exact ⟨c, hmem, by simpa using hown⟩

/-- **Every call is noted**, if nothing disturbs. -/
theorem told_after (hnames : (strategies.map EvictStrategyLRU_K.name).Nodup)
    (hnew : ∀ s ∈ strategies, ∀ dObjId, pad.number dObjId s.paramHistoryName = none)
    (calls : List UpdateCall) (hcalls : ∀ c ∈ calls, c.strategy ∈ strategies)
    (h : Undisturbed calls) :
    ∀ s ∈ strategies, ∀ dObjId, Told s (pad.after calls) dObjId (updatesOf s dObjId calls) := by
  induction calls using List.reverseRecOn with
  | nil => exact fun s hs dObjId => (if_pos rfl).mpr (hnew s hs dObjId)
  | append_singleton calls c ih =>
      intro s hs dObjId
      have hbefore := ih (fun c' hc' => hcalls c' (List.mem_append_left _ hc')) h.init
      have hc : c ∈ calls ++ [c] := List.mem_append_right _ (List.mem_singleton.mpr rfl)
      rw [after_append]
      by_cases hown : c.strategy = s ∧ c.dObjId = dObjId
      · obtain ⟨rfl, rfl⟩ := hown
        have htold := hbefore c.strategy hs c.dObjId
        have hcount := h.counted c hc
        rw [updatesOf_append_own, List.length_append, List.length_singleton] at hcount
        rw [updatesOf_append_own]
        unfold Told at htold ⊢
        rw [if_neg (by simp), List.reverse_append, List.reverse_singleton, List.singleton_append]
        by_cases hnil : updatesOf c.strategy c.dObjId calls = []
        · rw [if_pos hnil] at htold
          rw [hnil]
          exact Noted.first htold
        · rw [if_neg hnil] at htold
          exact Noted.next htold (by rwa [List.length_reverse])
      · rw [updatesOf_append_other calls hown]
        have htold := hbefore s hs dObjId
        unfold Told at htold ⊢
        by_cases hnil : updatesOf s dObjId calls = []
        · rw [if_pos hnil] at htold ⊢
          -- the count of a strategy is under a name of its own
          rw [← htold]
          refine number_update_of_ne (fun hid => ⟨fun hname => hown ⟨?_, hid.symm⟩, fun n hn => ?_⟩)
          · exact List.inj_on_of_nodup_map hnames (hcalls c hc) hs (history_injective hname).symm
          · exact kEntry_ne_history n s hn.symm
        · rw [if_neg hnil] at htold ⊢
          -- who has told about an object is the only one to do so
          have hid : dObjId ≠ c.dObjId := by
            rintro rfl
            obtain ⟨c', hc', hs', hid'⟩ := mem_of_updatesOf_ne_nil hnil
            exact hown ⟨(h.alone c hc c' (List.mem_append_left _ hc') hid'.symm).trans hs', rfl⟩
          exact htold.of_eq (fun name => number_update_of_ne (fun heq => absurd heq hid))

/-- The value of a strategy is what its own calls make it. -/
theorem value_after (hnames : (strategies.map EvictStrategyLRU_K.name).Nodup)
    (hnew : ∀ s ∈ strategies, ∀ dObjId, pad.number dObjId s.paramHistoryName = none)
    (hcalls : ∀ c ∈ calls, c.strategy ∈ strategies) (h : Undisturbed calls) {s : EvictStrategyLRU_K}
    (hs : s ∈ strategies) (dObjId : CString) :
    (updatesOf s dObjId calls ≠ [] →
      some (s.getEvictValueForDataObject (pad.after calls) dObjId) =
        kthMostRecent s.k (updatesOf s dObjId calls)) ∧
      (updatesOf s dObjId calls = [] →
        s.getEvictValueForDataObject (pad.after calls) dObjId = 0) := by
  have htold := told_after hnames hnew calls hcalls h s hs dObjId
  unfold Told at htold
  constructor
  · intro hne
    rw [if_neg hne] at htold
    obtain ⟨c, hc, rfl, rfl⟩ := mem_of_updatesOf_ne_nil hne
    have hvalue := htold.value (by simpa using hne)
      (by rw [List.length_reverse]; exact h.counted c hc)
    rwa [List.length_reverse] at hvalue
  · intro hnil
    rw [if_pos hnil] at htold
    exact value_of_none htold

/--
**The history of an undisturbed run.** While no object is updated by two strategies, the value of
a strategy for an object is the `k`-th last it was told, or the first if there were fewer; and a
call for another strategy or another object does not change it.
-/
theorem lruK_history (strategies : List EvictStrategyLRU_K)
    (hnames : (strategies.map EvictStrategyLRU_K.name).Nodup) (pad : ScratchpadManager)
    (hnew : ∀ s ∈ strategies, ∀ dObjId,
      pad.hasScratchpadAttributeDouble dObjId s.paramHistoryName = false)
    (calls : List UpdateCall) (hcalls : ∀ c ∈ calls, c.strategy ∈ strategies)
    (h : Undisturbed calls) :
    (∀ s ∈ strategies, ∀ dObjId, updatesOf s dObjId calls ≠ [] →
      some (s.getEvictValueForDataObject (pad.after calls) dObjId) =
        kthMostRecent s.k (updatesOf s dObjId calls)) ∧
      ∀ (before : List UpdateCall) (c : UpdateCall) (behind : List UpdateCall),
        calls = before ++ [c] ++ behind → ∀ s ∈ strategies, ∀ dObjId,
          ¬(c.strategy = s ∧ c.dObjId = dObjId) →
            s.getEvictValueForDataObject (pad.after (before ++ [c])) dObjId =
              s.getEvictValueForDataObject (pad.after before) dObjId := by
  have hnone : ∀ s ∈ strategies, ∀ dObjId, pad.number dObjId s.paramHistoryName = none := by
    intro s hs dObjId
    have hhas := hnew s hs dObjId
    rw [ScratchpadManager.has_eq_number] at hhas
    exact Option.not_isSome_iff_eq_none.mp (Bool.eq_false_iff.mp hhas)
  refine ⟨fun s hs dObjId => (value_after hnames hnone hcalls h hs dObjId).1, ?_⟩
  rintro before c behind rfl s hs dObjId hother
  have hlater := value_after hnames hnone
    (fun c' hc' => hcalls c' (List.mem_append_left _ hc')) h.init hs dObjId
  have hearlier := value_after hnames hnone
    (fun c' hc' => hcalls c' (List.mem_append_left _ (List.mem_append_left _ hc'))) h.init.init hs
    dObjId
  rw [updatesOf_append_other before hother] at hlater
  by_cases hnil : updatesOf s dObjId before = []
  · rw [hlater.2 hnil, hearlier.2 hnil]
  · exact Option.some.inj ((hlater.1 hnil).trans (hearlier.1 hnil).symm)

/-! ### Two strategies on one object -/

/-- A strategy by the last use, counted. -/
def lastUse (name : String) : EvictStrategyLRU_K :=
  ⟨lit name, lit "VIRTUAL", 1, by decide, by decide⟩

/-- The object is used twice, and one strategy hears of it. -/
theorem lruK_history_one :
    some ((lastUse "a").getEvictValueForDataObject (ScratchpadManager.new.after
      [⟨lastUse "a", lit "d", 1, noTime⟩, ⟨lastUse "a", lit "d", 2, noTime⟩]) (lit "d")) =
        kthMostRecent 1 (updatesOf (lastUse "a") (lit "d")
          [⟨lastUse "a", lit "d", 1, noTime⟩, ⟨lastUse "a", lit "d", 2, noTime⟩]) :=
  (lruK_history [lastUse "a"] (by decide) .new
    (fun _ _ _ => by rw [ScratchpadManager.has_eq_number, ScratchpadManager.number_new]; rfl)
    [⟨lastUse "a", lit "d", 1, noTime⟩, ⟨lastUse "a", lit "d", 2, noTime⟩] (by simp)
    ⟨by simp, by simp [Counted, lastUse]⟩).1 (lastUse "a") (by simp) (lit "d")
      (by decide)

/-- One strategy hears of the first use, another of the second: the value of the first changes. -/
theorem lruK_history_two :
    ¬ ∀ (strategies : List EvictStrategyLRU_K) (calls : List UpdateCall),
      (strategies.map EvictStrategyLRU_K.name).Nodup →
        (∀ c ∈ calls, c.strategy ∈ strategies) → ∀ s ∈ strategies, ∀ dObjId,
          updatesOf s dObjId calls ≠ [] →
            some (s.getEvictValueForDataObject (ScratchpadManager.new.after calls) dObjId) =
              kthMostRecent s.k (updatesOf s dObjId calls) := by
  intro h
  exact absurd (h [lastUse "a", lastUse "b"]
    [⟨lastUse "a", lit "d", 1, noTime⟩, ⟨lastUse "b", lit "d", 2, noTime⟩] (by decide) (by simp)
    (lastUse "a") (by simp) (lit "d") (by decide)) (by decide +kernel)

end Encoders.Cache
