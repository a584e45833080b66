import Mathlib.Data.Finset.Insert
import Mathlib.Data.Finset.Erase
import Encoders.Lib.Run
import Encoders.Nodes.NodeStore

/-!
# Coding or fragments

With fragmentation on and network coding off, an object goes out in fragments unless coding
is asked for the target. `NetworkCodingConfiguration` keeps a table of targets that want
coding, `FragmentationConfiguration` one of targets that want no fragments, and
`NetworkCodingManager` changes both at once. The answers are opposite as long as the tables
agree.

An object that was once coded for a target stays coded. So both questions, when the target's
entry decides them, leave an entry for the object and the target behind, each in its own
table. If the target is then switched back while only one of the two was asked, the object is
both coded and fragmented, or neither.
-/

namespace Encoders.Coding

open Encoders.Lib Encoders.Nodes

/-- `getIdStr`: hexadecimal digits, none of which is a bar. -/
abbrev IdStr := { text : CString // text ≠ [] ∧ (124 : UInt8) ∉ text }

/-- The text of an id, empty where no object is given. -/
def idText : Option IdStr → CString
  | none => []
  | some id => id.1

/-- `dataObjectId + "|" + targetNodeId` -/
def trackerKey (id name : CString) : CString := id ++ 124 :: name

/--
Both configurations, whose members are static, and the manager's times. A tracker maps every
key to true and is asked before a key is inserted, so it is a set of keys. Times are in
microseconds.
-/
structure CodingConfiguration where
  networkCodingTurnedOn : Bool
  fragmentationTurnedOn : Bool
  codingTracker : Finset CString
  fragmentationTracker : Finset CString
  lastToggleTimes : CString → Option Int
  minTimeBetweenToggles : Int

/-- A node in the list of an event, and the time when the loop comes to it. -/
structure ToggleTarget where
  type : NodeType
  name : CString
  now : Int

namespace CodingConfiguration

/-- `turnOffNetworkCodingForDataObjectandTargetNode` -/
def turnOffNetworkCodingFor (s : CodingConfiguration) (id name : CString) : CodingConfiguration :=
  if id = [] then { s with codingTracker := s.codingTracker.erase (trackerKey id name) } else s

/-- `turnOnNetworkCodingForDataObjectandTargetNode` -/
def turnOnNetworkCodingFor (s : CodingConfiguration) (id name : CString) : CodingConfiguration :=
  { s with codingTracker := insert (trackerKey id name) s.codingTracker }

/-- `turnOffFragmentationForDataObjectandTargetNode` -/
def turnOffFragmentationFor (s : CodingConfiguration) (id name : CString) : CodingConfiguration :=
  { s with fragmentationTracker := insert (trackerKey id name) s.fragmentationTracker }

/-- `turnOnFragmentationForDataObjectandTargetNode` -/
def turnOnFragmentationFor (s : CodingConfiguration) (id name : CString) : CodingConfiguration :=
  if id = [] then
    { s with fragmentationTracker := s.fragmentationTracker.erase (trackerKey id name) }
  else s

/-- `isNetworkCodingEnabled` -/
def isNetworkCodingEnabled (s : CodingConfiguration) (d : Option IdStr) (target : Option CString) :
    Bool × CodingConfiguration :=
  if s.networkCodingTurnedOn then (true, s)
  else
    match target with
    | none => (false, s)
    | some name =>
        if trackerKey (idText d) name ∈ s.codingTracker then (true, s)
        else if trackerKey [] name ∈ s.codingTracker then
          (true, { s with codingTracker := insert (trackerKey (idText d) name) s.codingTracker })
        else (false, s)

/-- `isFragmentationEnabled` -/
def isFragmentationEnabled (s : CodingConfiguration) (d : Option IdStr) (target : Option CString) :
    Bool × CodingConfiguration :=
  if ¬ s.fragmentationTurnedOn then (false, s)
  else
    match target with
    | none => (true, s)
    | some name =>
        if trackerKey (idText d) name ∈ s.fragmentationTracker then (false, s)
        else if trackerKey [] name ∈ s.fragmentationTracker then
          (false, { s with
            fragmentationTracker :=
              insert (trackerKey (idText d) name) s.fragmentationTracker })
        else (true, s)

/-- Enough time has passed since the target was last toggled. -/
def toToggle (s : CodingConfiguration) (t : ToggleTarget) : Bool :=
  (s.lastToggleTimes t.name).all (fun last => !(t.now - last < s.minTimeBetweenToggles))

/-- Nodes the manager has nothing to do with. -/
def ignored (t : ToggleTarget) : Bool :=
  t.type = .application || t.type = .gateway || t.type = .localDevice

/-- `lastToggleTimes.insert(make_pair(nid, now))` -/
def noteToggle (s : CodingConfiguration) (t : ToggleTarget) : CodingConfiguration :=
  { s with lastToggleTimes := Function.update s.lastToggleTimes t.name (some t.now) }

/-- The loop of `onDisableNetworkCoding`, for one node. -/
def disableFor (s : CodingConfiguration) (t : ToggleTarget) : CodingConfiguration :=
  if ignored t then s
  else
    let asked := s.isNetworkCodingEnabled none (some t.name)
    if asked.1 = false then asked.2
    else if asked.2.toToggle t then
      ((asked.2.noteToggle t).turnOnFragmentationFor [] t.name).turnOffNetworkCodingFor [] t.name
    else asked.2

/-- The loop of `onEnableNetworkCoding`, for one node. -/
def enableFor (s : CodingConfiguration) (t : ToggleTarget) : CodingConfiguration :=
  if ignored t then s
  else
    let asked := s.isNetworkCodingEnabled none (some t.name)
    if asked.1 then asked.2
    else if asked.2.toToggle t then
      ((asked.2.noteToggle t).turnOffFragmentationFor [] t.name).turnOnNetworkCodingFor [] t.name
    else asked.2

end CodingConfiguration

/-- What happens: an event with its list of nodes, or a question. -/
inductive CodingEvent where
  | disable (shuttingDown : Bool) (nodes : List ToggleTarget)
  | enable (shuttingDown : Bool) (nodes : List ToggleTarget)
  | askNetworkCoding (d : Option IdStr) (target : Option CString)
  | askFragmentation (d : Option IdStr) (target : Option CString)

namespace CodingConfiguration

/-- One event. -/
def step (s : CodingConfiguration) : CodingEvent → CodingConfiguration
  | .disable down nodes => if down then s else nodes.foldl disableFor s
  | .enable down nodes => if down then s else nodes.foldl enableFor s
  | .askNetworkCoding d target => (s.isNetworkCodingEnabled d target).2
  | .askFragmentation d target => (s.isFragmentationEnabled d target).2

/-- Fragmentation on, network coding off, and nothing toggled yet. -/
def start (minTimeBetweenToggles : Int) : CodingConfiguration :=
  ⟨false, true, ∅, ∅, fun _ => none, minTimeBetweenToggles⟩

/-- Of the two questions exactly one would be answered with yes. -/
def ExactlyOne (s : CodingConfiguration) : Prop :=
  ∀ d target, (s.isNetworkCodingEnabled d target).1 ≠ (s.isFragmentationEnabled d target).1

/-- The target is switched from coding to fragments by its entry in the list of an event. -/
def SwitchedOff (s : CodingConfiguration) (t : ToggleTarget) : Prop :=
  ignored t = false ∧ trackerKey [] t.name ∈ s.codingTracker ∧ s.toToggle t = true

/--
When an event switches a target back to fragments, the questions asked before have left
entries of the same objects for it in both tables.
-/
def Fits (s : CodingConfiguration) : CodingEvent → Prop
  | .disable down nodes => down = false → ∀ t ∈ nodes, s.SwitchedOff t → ∀ id : IdStr,
      trackerKey id.1 t.name ∈ s.codingTracker ↔ trackerKey id.1 t.name ∈ s.fragmentationTracker
  | _ => True

end CodingConfiguration

/--
What is wanted of a run: in every state exactly one of the answers is yes, and an object for
which coding was once reported for a target stays coded for it.
-/
structure OneMode (minTimeBetweenToggles : Int) (ops : List CodingEvent) : Prop where
  one : ∀ pre post, ops = pre ++ post →
    (pre.foldl CodingConfiguration.step (.start minTimeBetweenToggles)).ExactlyOne
  sticky : ∀ pre mid post id target,
    ops = pre ++ (.askNetworkCoding (some id) target :: mid) ++ post →
    ((pre.foldl CodingConfiguration.step (.start minTimeBetweenToggles)).isNetworkCodingEnabled
      (some id) target).1 = true →
    (((pre ++ (.askNetworkCoding (some id) target :: mid)).foldl CodingConfiguration.step
      (.start minTimeBetweenToggles)).isNetworkCodingEnabled (some id) target).1 = true

/-! ## Keys -/

/-- What is in front of the first bar, and what is behind it. -/
theorem split_at_bar : ∀ {a b x y : CString}, (124 : UInt8) ∉ a → (124 : UInt8) ∉ b →
    a ++ 124 :: x = b ++ 124 :: y → a = b ∧ x = y
  | [], [], _, _, _, _, h => ⟨rfl, List.tail_eq_of_cons_eq h⟩
  | [], c :: b, _, _, _, hb, h => absurd (List.head_eq_of_cons_eq h ▸ List.mem_cons_self) hb
  | c :: a, [], _, _, ha, _, h => absurd (List.head_eq_of_cons_eq h ▸ List.mem_cons_self) ha
  | c :: a, c' :: b, x, y, ha, hb, h => by
      have hhead : c = c' := List.head_eq_of_cons_eq h
      obtain ⟨hab, hxy⟩ := split_at_bar (fun hin => ha (List.mem_cons_of_mem _ hin))
        (fun hin => hb (List.mem_cons_of_mem _ hin)) (List.tail_eq_of_cons_eq h)
      exact ⟨by rw [hhead, hab], hxy⟩

/-- A key says which object and which target it is for. -/
theorem trackerKey_inj {id id' : IdStr} {n n' : CString} :
    trackerKey id.1 n = trackerKey id'.1 n' ↔ id = id' ∧ n = n' := by
  refine ⟨fun h => ?_, fun ⟨hid, hn⟩ => by rw [hid, hn]⟩
  obtain ⟨hid, hn⟩ := split_at_bar id.2.2 id'.2.2 h
  exact ⟨Subtype.ext hid, hn⟩

/-- The key of a target alone is not that of an object. -/
theorem trackerKey_ne (id : IdStr) (n n' : CString) : trackerKey id.1 n ≠ trackerKey [] n' :=
  fun h => id.2.1 (split_at_bar id.2.2 List.not_mem_nil h).1

theorem trackerKey_nil_inj {n n' : CString} : trackerKey [] n = trackerKey [] n' ↔ n = n' := by
  unfold trackerKey
  rw [List.nil_append, List.nil_append, List.cons.injEq]
  exact and_iff_right rfl

namespace CodingConfiguration

variable {s : CodingConfiguration}
variable {t : CodingConfiguration}

/-! ## The tables agree -/

/-- The tables have the same targets, and the same objects for a target that is off. -/
structure Agree (s : CodingConfiguration) : Prop where
  off : s.networkCodingTurnedOn = false
  on : s.fragmentationTurnedOn = true
  targets : ∀ n, trackerKey [] n ∈ s.codingTracker ↔ trackerKey [] n ∈ s.fragmentationTracker
  objects : ∀ n, trackerKey [] n ∉ s.codingTracker → ∀ id : IdStr,
    trackerKey id.1 n ∈ s.codingTracker ↔ trackerKey id.1 n ∈ s.fragmentationTracker

theorem isNetworkCodingEnabled_iff (h : s.networkCodingTurnedOn = false) (d : Option IdStr)
    (n : CString) : (s.isNetworkCodingEnabled d (some n)).1 = true ↔
      trackerKey (idText d) n ∈ s.codingTracker ∨ trackerKey [] n ∈ s.codingTracker := by
  unfold isNetworkCodingEnabled
  rw [h, if_neg Bool.false_ne_true]
  by_cases hown : trackerKey (idText d) n ∈ s.codingTracker
  · simp [hown]
  · by_cases hall : trackerKey [] n ∈ s.codingTracker
    · simp [hown, hall]
    · simp [hown, hall]

theorem isFragmentationEnabled_iff (h : s.fragmentationTurnedOn = true) (d : Option IdStr)
    (n : CString) : (s.isFragmentationEnabled d (some n)).1 = false ↔
      trackerKey (idText d) n ∈ s.fragmentationTracker ∨
        trackerKey [] n ∈ s.fragmentationTracker := by
  unfold isFragmentationEnabled
  rw [h, if_neg (fun hno => hno rfl)]
  by_cases hown : trackerKey (idText d) n ∈ s.fragmentationTracker
  · simp [hown]
  · by_cases hall : trackerKey [] n ∈ s.fragmentationTracker
    · simp [hown, hall]
    · simp [hown, hall]

/-- Where the tables have the same targets, the answers are opposite when they agree. -/
theorem exactlyOne_iff (hoff : s.networkCodingTurnedOn = false)
    (hon : s.fragmentationTurnedOn = true) (htargets : ∀ n, trackerKey [] n ∈ s.codingTracker ↔
      trackerKey [] n ∈ s.fragmentationTracker) : s.ExactlyOne ↔ s.Agree := by
  have hopposite : ∀ d n, (s.isNetworkCodingEnabled d (some n)).1 ≠
      (s.isFragmentationEnabled d (some n)).1 ↔
        ((trackerKey (idText d) n ∈ s.codingTracker ∨ trackerKey [] n ∈ s.codingTracker) ↔
          (trackerKey (idText d) n ∈ s.fragmentationTracker ∨
            trackerKey [] n ∈ s.fragmentationTracker)) := by
    intro d n
    rw [← isNetworkCodingEnabled_iff hoff, ← isFragmentationEnabled_iff hon]
    cases (s.isNetworkCodingEnabled d (some n)).1 <;>
      cases (s.isFragmentationEnabled d (some n)).1 <;> simp
  refine ⟨fun h => ⟨hoff, hon, htargets, ?_⟩, fun h d target => ?_⟩
  · intro n hn id
    have hone := (hopposite (some id) n).mp (h (some id) (some n))
    have hn' : trackerKey [] n ∉ s.fragmentationTracker := mt (htargets n).mpr hn
    simpa [idText, hn, hn'] using hone
  · cases target with
    | none =>
        unfold isNetworkCodingEnabled isFragmentationEnabled
        rw [hoff, hon]
        simp
    | some n =>
        refine (hopposite d n).mpr ?_
        by_cases hn : trackerKey [] n ∈ s.codingTracker
        · exact iff_of_true (Or.inr hn) (Or.inr ((htargets n).mp hn))
        · have hn' : trackerKey [] n ∉ s.fragmentationTracker := mt (htargets n).mpr hn
          rw [or_iff_left hn, or_iff_left hn']
          cases d with
          | none => exact htargets n
          | some id => exact h.objects n hn id

/-! ## What the events do -/

/-- What a question does: it may add an entry for an object, and only for a target that is on. -/
theorem isNetworkCodingEnabled_state (s : CodingConfiguration) (d : Option IdStr)
    (target : Option CString) : (s.isNetworkCodingEnabled d target).2 = s ∨
      ∃ id n, trackerKey [] n ∈ s.codingTracker ∧ (s.isNetworkCodingEnabled d target).2 =
        { s with codingTracker := insert (trackerKey (id : IdStr).1 n) s.codingTracker } := by
  unfold isNetworkCodingEnabled
  split
  · exact Or.inl rfl
  · cases target with
    | none => exact Or.inl rfl
    | some n =>
        simp only
        split
        · exact Or.inl rfl
        · next hown =>
            split
            · next hall =>
                cases d with
                | none => exact absurd hall hown
                | some id => exact Or.inr ⟨id, n, hall, rfl⟩
            · exact Or.inl rfl

theorem isFragmentationEnabled_state (s : CodingConfiguration) (d : Option IdStr)
    (target : Option CString) : (s.isFragmentationEnabled d target).2 = s ∨
      ∃ id n, trackerKey [] n ∈ s.fragmentationTracker ∧ (s.isFragmentationEnabled d target).2 =
        { s with
          fragmentationTracker :=
            insert (trackerKey (id : IdStr).1 n) s.fragmentationTracker } := by
  unfold isFragmentationEnabled
  split
  · exact Or.inl rfl
  · cases target with
    | none => exact Or.inl rfl
    | some n =>
        simp only
        split
        · exact Or.inl rfl
        · next hown =>
            split
            · next hall =>
                cases d with
                | none => exact absurd hall hown
                | some id => exact Or.inr ⟨id, n, hall, rfl⟩
            · exact Or.inl rfl

/-- Asked for a target alone, the manager changes nothing. -/
theorem isNetworkCodingEnabled_none (s : CodingConfiguration) (target : Option CString) :
    (s.isNetworkCodingEnabled none target).2 = s := by
  unfold isNetworkCodingEnabled
  split
  · rfl
  · cases target with
    | none => rfl
    | some n =>
        simp only
        split
        · rfl
        · next hown => rw [if_neg (show ¬ trackerKey [] n ∈ s.codingTracker from hown)]

/-- The entries of objects are as they were, and coding and fragmentation are on or off. -/
structure SameObjects (s t : CodingConfiguration) : Prop where
  off : t.networkCodingTurnedOn = s.networkCodingTurnedOn
  on : t.fragmentationTurnedOn = s.fragmentationTurnedOn
  coding : ∀ (id : IdStr) n, trackerKey id.1 n ∈ t.codingTracker ↔
    trackerKey id.1 n ∈ s.codingTracker
  fragmentation : ∀ (id : IdStr) n, trackerKey id.1 n ∈ t.fragmentationTracker ↔
    trackerKey id.1 n ∈ s.fragmentationTracker

theorem SameObjects.refl (s : CodingConfiguration) : s.SameObjects s :=
  ⟨rfl, rfl, fun _ _ => Iff.rfl, fun _ _ => Iff.rfl⟩

theorem SameObjects.trans {s t u : CodingConfiguration} (h : s.SameObjects t)
    (h' : t.SameObjects u) : s.SameObjects u where
  off := h'.off.trans h.off
  on := h'.on.trans h.on
  coding := fun id n => (h'.coding id n).trans (h.coding id n)
  fragmentation := fun id n => (h'.fragmentation id n).trans (h.fragmentation id n)

/-- Targets that an event takes out of both tables. -/
structure TakesOut (s t : CodingConfiguration) (out : CString → Prop) : Prop where
  objects : s.SameObjects t
  coding : ∀ n, trackerKey [] n ∈ t.codingTracker ↔ trackerKey [] n ∈ s.codingTracker ∧ ¬ out n
  fragmentation : ∀ n, trackerKey [] n ∈ t.fragmentationTracker ↔
    trackerKey [] n ∈ s.fragmentationTracker ∧ ¬ out n

/-- Targets that an event puts into both tables. -/
structure PutsIn (s t : CodingConfiguration) (new : CString → Prop) : Prop where
  objects : s.SameObjects t
  coding : ∀ n, trackerKey [] n ∈ t.codingTracker ↔ trackerKey [] n ∈ s.codingTracker ∨ new n
  fragmentation : ∀ n, trackerKey [] n ∈ t.fragmentationTracker ↔
    trackerKey [] n ∈ s.fragmentationTracker ∨ new n

/-- One node of a list that is to be disabled. -/
theorem disableFor_spec (hoff : s.networkCodingTurnedOn = false) (t : ToggleTarget) :
    s.TakesOut (s.disableFor t) (fun n => s.SwitchedOff t ∧ n = t.name) ∧
      ∀ u : ToggleTarget, ¬ (s.SwitchedOff t ∧ u.name = t.name) →
        ((s.disableFor t).SwitchedOff u ↔ s.SwitchedOff u) := by
  have hstay : ¬ s.SwitchedOff t → s.disableFor t = s →
      s.TakesOut (s.disableFor t) (fun n => s.SwitchedOff t ∧ n = t.name) ∧
        ∀ u : ToggleTarget, ¬ (s.SwitchedOff t ∧ u.name = t.name) →
          ((s.disableFor t).SwitchedOff u ↔ s.SwitchedOff u) := by
    intro hno heq
    rw [heq]
    refine ⟨⟨SameObjects.refl s, ?_, ?_⟩, fun _ _ => Iff.rfl⟩
    · exact fun n => (and_iff_left (fun hout => hno hout.1)).symm
    · exact fun n => (and_iff_left (fun hout => hno hout.1)).symm
  by_cases hignored : ignored t = true
  · refine hstay (fun hsw => ?_) (by unfold disableFor; rw [if_pos hignored])
    have hno := hsw.1
    rw [hignored] at hno
    cases hno
  rw [Bool.not_eq_true] at hignored
  have hasked := isNetworkCodingEnabled_iff hoff none t.name
  rw [idText, or_self] at hasked
  have hsame := isNetworkCodingEnabled_none s (some t.name)
  by_cases hon : trackerKey [] t.name ∈ s.codingTracker
  · by_cases htime : s.toToggle t = true
    · -- the target is switched off
      have heq : s.disableFor t =
          ((s.noteToggle t).turnOnFragmentationFor [] t.name).turnOffNetworkCodingFor [] t.name := by
        unfold disableFor
        simp only [hignored, Bool.false_eq_true, if_false, hsame, hasked.mpr hon, htime, if_true]
        rw [if_neg (by simp)]
      have hsw : s.SwitchedOff t := ⟨hignored, hon, htime⟩
      rw [heq]
      unfold turnOnFragmentationFor turnOffNetworkCodingFor noteToggle
      simp only [if_true]
      refine ⟨⟨⟨rfl, rfl, ?_, ?_⟩, ?_, ?_⟩, ?_⟩
      · exact fun id n => by simp [trackerKey_ne id n t.name]
      · exact fun id n => by simp [trackerKey_ne id n t.name]
      · intro n
        rw [Finset.mem_erase, ne_eq, trackerKey_nil_inj, and_comm]
        simp [hsw]
      · intro n
        rw [Finset.mem_erase, ne_eq, trackerKey_nil_inj, and_comm]
        simp [hsw]
      · intro u hu
        have hne : u.name ≠ t.name := fun heq => hu ⟨hsw, heq⟩
        unfold SwitchedOff toToggle
        simp only
        rw [Function.update_of_ne hne, Finset.mem_erase, ne_eq, trackerKey_nil_inj,
          and_iff_right hne]
    · refine hstay (fun hsw => htime hsw.2.2) ?_
      unfold disableFor
      simp only [hignored, Bool.false_eq_true, if_false, hsame, hasked.mpr hon, htime]
      rw [if_neg (by simp)]
  · refine hstay (fun hsw => hon hsw.2.1) ?_
    have hno : (s.isNetworkCodingEnabled none (some t.name)).1 = false := by
      rw [← Bool.not_eq_true, hasked]
      exact hon
    unfold disableFor
    simp only [hignored, Bool.false_eq_true, if_false, hsame, hno, if_true]

/-- One node of a list that is to be enabled. -/
theorem enableFor_spec (s : CodingConfiguration) (t : ToggleTarget) :
    ∃ new, s.PutsIn (s.enableFor t) new := by
  have hsame := isNetworkCodingEnabled_none s (some t.name)
  have hstay : s.PutsIn s (fun _ => False) :=
    ⟨SameObjects.refl s, fun n => (or_iff_left id).symm, fun n => (or_iff_left id).symm⟩
  unfold enableFor
  simp only [hsame]
  split
  · exact ⟨_, hstay⟩
  · split
    · exact ⟨_, hstay⟩
    · split
      · refine ⟨fun n => n = t.name, ⟨rfl, rfl, ?_, ?_⟩, ?_, ?_⟩
        · exact fun id n => by
            simp [turnOnNetworkCodingFor, turnOffFragmentationFor, noteToggle,
              trackerKey_ne id n t.name]
        · exact fun id n => by
            simp [turnOnNetworkCodingFor, turnOffFragmentationFor, noteToggle,
              trackerKey_ne id n t.name]
        · intro n
          simp only [turnOnNetworkCodingFor, turnOffFragmentationFor, noteToggle,
            Finset.mem_insert, trackerKey_nil_inj]
          exact or_comm
        · intro n
          simp only [turnOnNetworkCodingFor, turnOffFragmentationFor, noteToggle,
            Finset.mem_insert, trackerKey_nil_inj]
          exact or_comm
      · exact ⟨_, hstay⟩

/-- A list of nodes to be disabled takes out those that it switches off. -/
theorem foldl_disableFor : ∀ (nodes : List ToggleTarget) (s : CodingConfiguration),
    s.networkCodingTurnedOn = false → s.TakesOut (nodes.foldl disableFor s)
      (fun n => ∃ t ∈ nodes, s.SwitchedOff t ∧ n = t.name)
  | [], s, _ => by
      refine ⟨SameObjects.refl s, fun n => ?_, fun n => ?_⟩
      · simp
      · simp
  | t :: nodes, s, hoff => by
      obtain ⟨hfirst, hlater⟩ := disableFor_spec hoff t
      have hrest := foldl_disableFor nodes (s.disableFor t) (hfirst.objects.off.trans hoff)
      -- a target later in the list counts as it did before, unless this one has the same name
      have hout : ∀ n, (¬ (s.SwitchedOff t ∧ n = t.name)) ∧
          ¬ (∃ u ∈ nodes, (s.disableFor t).SwitchedOff u ∧ n = u.name) ↔
            ¬ ∃ u ∈ t :: nodes, s.SwitchedOff u ∧ n = u.name := by
        intro n
        rw [← not_or]
        refine not_congr ⟨?_, ?_⟩
        · rintro (hhere | ⟨u, hu, hsw, hname⟩)
          · exact ⟨t, List.mem_cons_self, hhere⟩
          · by_cases hsame : s.SwitchedOff t ∧ u.name = t.name
            · exact ⟨t, List.mem_cons_self, hsame.1, hname.trans hsame.2⟩
            · exact ⟨u, List.mem_cons_of_mem _ hu, (hlater u hsame).mp hsw, hname⟩
        · rintro ⟨u, hu, hsw, hname⟩
          rcases List.mem_cons.mp hu with rfl | hu
          · exact Or.inl ⟨hsw, hname⟩
          · by_cases hsame : s.SwitchedOff t ∧ u.name = t.name
            · exact Or.inl ⟨hsame.1, hname.trans hsame.2⟩
            · exact Or.inr ⟨u, hu, (hlater u hsame).mpr hsw, hname⟩
      refine ⟨hfirst.objects.trans hrest.objects, fun n => ?_, fun n => ?_⟩
      · rw [List.foldl_cons, hrest.coding n, hfirst.coding n, and_assoc, hout n]
      · rw [List.foldl_cons, hrest.fragmentation n, hfirst.fragmentation n, and_assoc, hout n]

theorem foldl_enableFor : ∀ (nodes : List ToggleTarget) (s : CodingConfiguration),
    ∃ new, s.PutsIn (nodes.foldl enableFor s) new
  | [], s => ⟨fun _ => False, SameObjects.refl s, fun n => (or_iff_left id).symm,
      fun n => (or_iff_left id).symm⟩
  | t :: nodes, s => by
      obtain ⟨here, hfirst⟩ := enableFor_spec s t
      obtain ⟨later, hrest⟩ := foldl_enableFor nodes (s.enableFor t)
      refine ⟨fun n => here n ∨ later n, hfirst.objects.trans hrest.objects, ?_, ?_⟩
      · intro n
        rw [List.foldl_cons, hrest.coding n, hfirst.coding n, or_assoc]
      · intro n
        rw [List.foldl_cons, hrest.fragmentation n, hfirst.fragmentation n, or_assoc]

/-! ## One event -/

/-- Targets taken out leave the tables in agreement exactly when their objects agree. -/
theorem Agree.takesOut_iff {out : CString → Prop} (h : s.Agree) (ht : s.TakesOut t out) :
    t.Agree ↔ ∀ n, out n → ∀ id : IdStr,
      trackerKey id.1 n ∈ s.codingTracker ↔ trackerKey id.1 n ∈ s.fragmentationTracker := by
  refine ⟨fun hagree n hn id => ?_, fun hobjects => ?_⟩
  · rw [← ht.objects.coding id n, ← ht.objects.fragmentation id n]
    refine hagree.objects n (fun hin => ?_) id
    exact ((ht.coding n).mp hin).2 hn
  · refine ⟨ht.objects.off.trans h.off, ht.objects.on.trans h.on, fun n => ?_, fun n hn id => ?_⟩
    · rw [ht.coding n, ht.fragmentation n, h.targets n]
    · rw [ht.objects.coding id n, ht.objects.fragmentation id n]
      by_cases hout : out n
      · exact hobjects n hout id
      · exact h.objects n (fun hin => hn ((ht.coding n).mpr ⟨hin, hout⟩)) id

theorem Agree.putsIn {new : CString → Prop} (h : s.Agree) (ht : s.PutsIn t new) : t.Agree where
  off := ht.objects.off.trans h.off
  on := ht.objects.on.trans h.on
  targets := fun n => by rw [ht.coding n, ht.fragmentation n, h.targets n]
  objects := by
    intro n hn id
    rw [ht.objects.coding id n, ht.objects.fragmentation id n]
    exact h.objects n (fun hin => hn ((ht.coding n).mpr (Or.inl hin))) id

/-- An entry for an object whose target is on does not matter. -/
theorem Agree.addObject (h : s.Agree) (hoff : t.networkCodingTurnedOn = s.networkCodingTurnedOn)
    (hon : t.fragmentationTurnedOn = s.fragmentationTurnedOn) {id : IdStr} {n : CString}
    (hn : trackerKey [] n ∈ s.codingTracker)
    (hcoding : ∀ k, k ≠ trackerKey id.1 n → (k ∈ t.codingTracker ↔ k ∈ s.codingTracker))
    (hfragmentation : ∀ k, k ≠ trackerKey id.1 n →
      (k ∈ t.fragmentationTracker ↔ k ∈ s.fragmentationTracker)) : t.Agree where
  off := hoff.trans h.off
  on := hon.trans h.on
  targets := by
    intro n'
    rw [hcoding _ (trackerKey_ne id n n').symm, hfragmentation _ (trackerKey_ne id n n').symm]
    exact h.targets n'
  objects := by
    intro n' hn' id'
    rw [hcoding _ (trackerKey_ne id n n').symm] at hn'
    have hother : trackerKey id'.1 n' ≠ trackerKey id.1 n := by
      intro heq
      exact hn' ((trackerKey_inj.mp heq).2 ▸ hn)
    rw [hcoding _ hother, hfragmentation _ hother]
    exact h.objects n' hn' id'

/-- A fitting event leaves the tables in agreement. -/
theorem Agree.step {s : CodingConfiguration} (h : s.Agree) (op : CodingEvent) (hfits : s.Fits op) :
    (s.step op).Agree := by
  cases op with
  | disable down nodes =>
      cases down with
      | true => exact h
      | false =>
          refine (h.takesOut_iff (foldl_disableFor nodes s h.off)).mpr ?_
          intro n hn
          obtain ⟨t, ht, hsw, hname⟩ := hn
          rw [hname]
          exact hfits rfl t ht hsw
  | enable down nodes =>
      cases down with
      | true => exact h
      | false =>
          obtain ⟨new, hputs⟩ := foldl_enableFor nodes s
          exact h.putsIn hputs
  | askNetworkCoding d target =>
      show (s.isNetworkCodingEnabled d target).2.Agree
      rcases isNetworkCodingEnabled_state s d target with heq | ⟨id, n, hn, heq⟩
      · rw [heq]
        exact h
      · rw [heq]
        exact h.addObject rfl rfl hn (fun k hk => Finset.mem_insert.trans (or_iff_right hk))
          (fun _ _ => Iff.rfl)
  | askFragmentation d target =>
      show (s.isFragmentationEnabled d target).2.Agree
      rcases isFragmentationEnabled_state s d target with heq | ⟨id, n, hn, heq⟩
      · rw [heq]
        exact h
      · rw [heq]
        exact h.addObject rfl rfl ((h.targets n).mpr hn) (fun _ _ => Iff.rfl)
          (fun k hk => Finset.mem_insert.trans (or_iff_right hk))

/-- An event after which exactly one answer is yes was fitting. -/
theorem Agree.fits (h : s.Agree) (op : CodingEvent) (hone : (s.step op).ExactlyOne) :
    s.Fits op := by
  cases op with
  | enable down nodes => trivial
  | askNetworkCoding d target => trivial
  | askFragmentation d target => trivial
  | disable down nodes =>
      intro hdown t ht hsw
      subst hdown
      have htakes := foldl_disableFor nodes s h.off
      have hagree : (nodes.foldl disableFor s).Agree := by
        refine (exactlyOne_iff (htakes.objects.off.trans h.off) (htakes.objects.on.trans h.on)
          (fun n => ?_)).mp hone
        rw [htakes.coding n, htakes.fragmentation n, h.targets n]
      exact (h.takesOut_iff htakes).mp hagree t.name ⟨t, ht, hsw, rfl⟩

/-- Coding stays off in general, and no entry of an object is taken out of its table. -/
theorem step_keeps (hoff : s.networkCodingTurnedOn = false) (op : CodingEvent) :
    (s.step op).networkCodingTurnedOn = false ∧
      ∀ (id : IdStr) n, trackerKey id.1 n ∈ s.codingTracker →
        trackerKey id.1 n ∈ (s.step op).codingTracker := by
  cases op with
  | disable down nodes =>
      cases down with
      | true => exact ⟨hoff, fun _ _ h => h⟩
      | false =>
          have htakes := foldl_disableFor nodes s hoff
          exact ⟨htakes.objects.off.trans hoff, fun id n => (htakes.objects.coding id n).mpr⟩
  | enable down nodes =>
      cases down with
      | true => exact ⟨hoff, fun _ _ h => h⟩
      | false =>
          obtain ⟨new, hputs⟩ := foldl_enableFor nodes s
          exact ⟨hputs.objects.off.trans hoff, fun id n => (hputs.objects.coding id n).mpr⟩
  | askNetworkCoding d target =>
      rcases isNetworkCodingEnabled_state s d target with heq | ⟨id', n', _, heq⟩
      · rw [step, heq]
        exact ⟨hoff, fun _ _ h => h⟩
      · rw [step, heq]
        exact ⟨hoff, fun _ _ h => Finset.mem_insert_of_mem h⟩
  | askFragmentation d target =>
      rcases isFragmentationEnabled_state s d target with heq | ⟨id', n', _, heq⟩
      · rw [step, heq]
        exact ⟨hoff, fun _ _ h => h⟩
      · rw [step, heq]
        exact ⟨hoff, fun _ _ h => h⟩

/-! ## Whole runs -/

theorem off_foldl (ops : List CodingEvent) : ∀ s : CodingConfiguration,
    s.networkCodingTurnedOn = false → (ops.foldl step s).networkCodingTurnedOn = false := by
  induction ops with
  | nil => exact fun s h => h
  | cons op ops ih => exact fun s h => ih (s.step op) (step_keeps h op).1

theorem mem_foldl {id : IdStr} {n : CString} (ops : List CodingEvent) :
    ∀ s : CodingConfiguration, s.networkCodingTurnedOn = false →
      trackerKey id.1 n ∈ s.codingTracker →
        trackerKey id.1 n ∈ (ops.foldl step s).codingTracker := by
  induction ops with
  | nil => exact fun s _ h => h
  | cons op ops ih =>
      intro s hoff h
      obtain ⟨hoff', hkeep⟩ := step_keeps hoff op
      exact ih (s.step op) hoff' (hkeep id n h)

/-- **Once coding has been reported it stays.** -/
theorem reported_stays (hoff : s.networkCodingTurnedOn = false) (id : IdStr)
    (target : Option CString) (mid : List CodingEvent)
    (h : (s.isNetworkCodingEnabled (some id) target).1 = true) :
    (((.askNetworkCoding (some id) target :: mid).foldl step s).isNetworkCodingEnabled
      (some id) target).1 = true := by
  cases target with
  | none =>
      unfold isNetworkCodingEnabled at h
      rw [hoff] at h
      simp at h
  | some n =>
      have hin : trackerKey id.1 n ∈
          (s.isNetworkCodingEnabled (some id) (some n)).2.codingTracker := by
        rcases (isNetworkCodingEnabled_iff hoff (some id) n).mp h with hown | hall
        · rcases isNetworkCodingEnabled_state s (some id) (some n) with heq | ⟨id', n', _, heq⟩
          · rw [heq]
            exact hown
          · rw [heq]
            exact Finset.mem_insert_of_mem hown
        · unfold isNetworkCodingEnabled
          rw [hoff, if_neg Bool.false_ne_true]
          by_cases hown : trackerKey (idText (some id)) n ∈ s.codingTracker
          · simp only [if_pos hown]
            exact hown
          · simp only [if_neg hown, if_pos hall]
            exact Finset.mem_insert_self _ _
      have hlater := mem_foldl mid _ (step_keeps hoff (.askNetworkCoding (some id) (some n))).1 hin
      exact (isNetworkCodingEnabled_iff (off_foldl _ s hoff) (some id) n).mpr (Or.inl hlater)

/--
**Exactly one coding mode for each object and target**, in every state of a run, and for good
once it is coding, exactly when no event switches a target back to fragments while for some
object only one of the two questions has been asked.
-/
theorem one_coding_mode_iff (minTimeBetweenToggles : Int) (ops : List CodingEvent) :
    OneMode minTimeBetweenToggles ops ↔
      Guarded (fun s op => some (step s op)) Fits (start minTimeBetweenToggles) ops := by
  have hstart : (start minTimeBetweenToggles).Agree :=
    ⟨rfl, rfl, fun _ => Iff.rfl, fun _ _ _ => Iff.rfl⟩
  have hwanted : ∀ s : CodingConfiguration, s.Agree → s.ExactlyOne :=
    fun s h => (exactlyOne_iff h.off h.on h.targets).mpr h
  rw [← foldl_wanted_iff hwanted (fun s op h hfits => h.step op hfits)
    (fun s op h hone => h.fits op hone) ops (start minTimeBetweenToggles) hstart]
  refine ⟨fun h => h.one, fun h => ⟨h, ?_⟩⟩
  intro pre mid post id target _ hreported
  rw [List.foldl_append]
  exact reported_stays (off_foldl pre _ rfl) id target mid hreported

/-! ## A target switched on and off -/

/-- A peer, when the loop comes to it. -/
def peerAt (now : Int) : ToggleTarget := ⟨.peer, [110], now⟩

/-- The id of an object. -/
def objectId : IdStr := ⟨[97, 98], by decide, by decide⟩

/-- Coding is enabled for the peer, both questions are asked, and coding is disabled. -/
theorem one_coding_mode_both_asked :
    OneMode 5 [.enable false [peerAt 0], .askNetworkCoding (some objectId) (some [110]),
      .askFragmentation (some objectId) (some [110]), .disable false [peerAt 9]] := by
  refine (one_coding_mode_iff 5 _).mpr ⟨trivial, fun s hs => ⟨trivial, fun s' hs' =>
    ⟨trivial, fun s'' hs'' => ⟨?_, fun _ _ => trivial⟩⟩⟩⟩
  obtain rfl := Option.some.inj hs
  obtain rfl := Option.some.inj hs'
  obtain rfl := Option.some.inj hs''
  intro _ t ht _ id
  rw [List.mem_singleton.mp ht]
  -- the tables are the same
  exact Iff.rfl

/-- Only whether the object is coded is asked before coding is disabled: then it is both. -/
theorem coded_and_fragmented :
    ¬ OneMode 5 [.enable false [peerAt 0], .askNetworkCoding (some objectId) (some [110]),
      .disable false [peerAt 9]] := by
  intro h
  have hboth := h.one _ [] (List.append_nil _).symm (some objectId) (some [110])
  exact hboth (by decide +kernel)

end CodingConfiguration

end Encoders.Coding
