import Mathlib.Data.List.Infix
import Mathlib.Data.Rat.Floor
import Mathlib.Tactic.Linarith
import Mathlib.Tactic.Positivity
import Encoders.Forwarding.RoutingUpdates
import Encoders.Lib.Run

/-!
# PRoPHET metrics

`ForwarderProphet` keeps for every node it has heard of how likely it is to meet it. Meeting a
neighbour raises the metric towards `1 - delta`, losing it or letting time go by lowers it by
powers of `gamma`, and a message from a neighbour that lists metrics of its own may raise the
metric of a node it lists to the product of both with `beta`.

All of these rules keep numbers between 0 and 1 there, if the numbers they start from are. The
number in a message is not looked at: it is read with `sscanf` and multiplied in. The metrics stay
probabilities as long as none of these products is above 1, and no longer.

The numbers are rationals. What `sscanf` makes of a text is a parameter.
-/

namespace Encoders.Forwarding

open Encoders.Lib Encoders.Data Encoders.Nodes

/-! ## The module -/

/-- The constants of the module, four of them probabilities or factors. -/
structure ProphetConstants where
  pEncounter : ℚ
  beta : ℚ
  gamma : ℚ
  delta : ℚ
  agingTimeUnit : ℚ
  pEncounter_mem : 0 ≤ pEncounter ∧ pEncounter ≤ 1
  beta_mem : 0 ≤ beta ∧ beta ≤ 1
  gamma_mem : 0 ≤ gamma ∧ gamma ≤ 1
  delta_mem : 0 ≤ delta ∧ delta ≤ 1

/-- `PROPHET_P_ENCOUNTER_DEFAULT` and its like. -/
def ProphetConstants.default : ProphetConstants where
  pEncounter := 3 / 4
  beta := 1 / 4
  gamma := 999 / 1000
  delta := 1 / 100
  agingTimeUnit := 10 * 60
  pEncounter_mem := by norm_num
  beta_mem := by norm_num
  gamma_mem := by norm_num
  delta_mem := by norm_num

/-- `prophet_metric_t`: a metric, and when it was last aged. -/
structure ProphetMetric where
  first : ℚ
  second : Timeval
deriving DecidableEq

/-- `prophet_rib_t` -/
abbrev ProphetRib := Nat → Option ProphetMetric

theorem small_lo (sec : Fin 10) : -9223372036854775808 ≤ (sec.val : Int) := by omega

theorem small_hi (sec : Fin 10) : (sec.val : Int) ≤ 9223372036854775807 := by omega

/-- A few seconds. -/
def seconds (sec : Fin 10) : Timeval :=
  ⟨sec.val, 0, small_lo sec, small_hi sec, Timeval.whole_usec⟩

/-- What `operator[]` puts into a map for a key it does not hold. -/
def ProphetMetric.fresh : ProphetMetric := ⟨0, seconds 0⟩

/-- `rib[id]`, as it is read. -/
def ProphetRib.metric (rib : ProphetRib) (id : Nat) : ProphetMetric := (rib id).getD .fresh

/-- `rib[id]`, as it is written. -/
def ProphetRib.put (rib : ProphetRib) (id : Nat) (m : ProphetMetric) : ProphetRib :=
  Function.update rib id (some m)

/-- `this_node_id` -/
def thisNodeId : Nat := 1

/-- The state of the module. -/
structure ForwarderProphet where
  sampling : Bool
  nodeidToIdNumber : CString → Nat
  nextIdNumber : Nat
  rib : ProphetRib
  neighborRibs : Nat → Option ProphetRib

/-! ## Its rules -/

section Rules

variable (k : ProphetConstants)

/-- `(now - t).getSeconds()` -/
def secondsSince (now t : Timeval) : Int :=
  now.sec - t.sec - if now.usec < t.usec then 1 else 0

/-- `pow(PROPHET_GAMMA, K)`, if the number `K` of time units in so many seconds is above 0. -/
def agingFactor (seconds : Int) : Option ℚ :=
  if k.agingTimeUnit = 0 then
    -- the quotient is infinite, or not a number
    if 0 < seconds then some (if k.gamma = 1 then 1 else 0) else none
  else if 0 < ⌊(seconds : ℚ) / k.agingTimeUnit⌋ then
    some (k.gamma ^ ⌊(seconds : ℚ) / k.agingTimeUnit⌋.toNat)
  else none

/-- A metric close to 0 is said to be 0. -/
def orZero (P : ℚ) : ℚ := if P < 1 / 1000000 then 0 else P

/-- `age_metric` -/
def ageMetric (now : Timeval) (metric : ProphetMetric) : ProphetMetric :=
  if metric.second.sec = 0 ∧ metric.second.usec = 0 then { metric with second := now }
  else
    match agingFactor k (secondsSince now metric.second) with
    | none => metric
    | some factor => ⟨orZero (metric.first * factor), now⟩

/-- `age_metric(rib[id])` -/
def ProphetRib.age (now : Timeval) (id : Nat) (rib : ProphetRib) : ProphetRib :=
  rib.put id (ageMetric k now (rib.metric id))

/-- The rule for an encounter. -/
def encounter (P : ℚ) : ℚ := P + (1 - k.delta - P) * k.pEncounter

namespace ForwarderProphet

/-- The module after its constructor. -/
def create (thisNode : Node) : ForwarderProphet where
  sampling := false
  nodeidToIdNumber := Function.update (fun _ => 0) (getIdStr thisNode) thisNodeId
  nextIdNumber := thisNodeId + 1
  rib := fun _ => none
  neighborRibs := fun _ => none

/-- `id_for_string` -/
def idForString (p : ForwarderProphet) (nodeid : CString) : Nat × ForwarderProphet :=
  if p.nodeidToIdNumber nodeid = 0 then
    (p.nextIdNumber,
      { p with
        nodeidToIdNumber := Function.update p.nodeidToIdNumber nodeid p.nextIdNumber
        nextIdNumber := p.nextIdNumber + 1 })
  else (p.nodeidToIdNumber nodeid, p)

/-- The metric of a node after an encounter with it. -/
def meet (p : ForwarderProphet) (neighbor : Node) : ForwarderProphet :=
  let (neighborId, p) := p.idForString (getIdStr neighbor)
  let metric := p.rib.metric neighborId
  { p with rib := p.rib.put neighborId { metric with first := encounter k metric.first } }

/-- `_newNeighbor` -/
def newNeighbor (p : ForwarderProphet) (neighbor : Node) : ForwarderProphet :=
  if neighbor.type ≠ .peer then p
  else if p.sampling then p
  else p.meet k neighbor

/-- `_endNeighbor` -/
def endNeighbor (p : ForwarderProphet) (neighbor : Node) (now : Timeval) : ForwarderProphet :=
  if neighbor.type ≠ .peer then p
  else if p.sampling then p
  else
    let (neighborId, p) := p.idForString (getIdStr neighbor)
    let metric := p.rib.metric neighborId
    { p with rib := p.rib.put neighborId ⟨orZero (metric.first * k.gamma), now⟩ }

/-- `isNeighbor` of a node. -/
def isNeighbor (node : Node) : Bool :=
  (node.type = .peer || node.type = .undefined || node.type = .gateway) &&
    node.interfaces.list.any (fun iface => iface.isUp)

/-- `updateCurrentNeighbors`, with what `retrieveNeighbors` finds. -/
def updateCurrentNeighbors (p : ForwarderProphet) (neighbors : List Node) : ForwarderProphet :=
  neighbors.foldl (fun p neighbor =>
    if isNeighbor neighbor && neighbor.type = .peer then p.meet k neighbor else p) p

/--
The loop of `addRoutingInformation`: metrics that are not 0 are aged, those of applications
apart. Each is aged at a time of its own.
-/
def ageForUpdate (p : ForwarderProphet) (isApplication : Nat → Bool) (now : Nat → Timeval) :
    ForwarderProphet :=
  { p with
    rib := fun id => (p.rib id).map (fun metric =>
      if metric.first ≠ 0 ∧ isApplication id = false then ageMetric k (now id) metric
      else metric) }

/-- `addRoutingInformation` -/
def addRoutingInformation (p : ForwarderProphet) (neighbors : List Node)
    (isApplication : Nat → Bool) (now : Nat → Timeval) : ForwarderProphet :=
  (if p.sampling then p.updateCurrentNeighbors k neighbors else p).ageForUpdate k isApplication now

end ForwarderProphet

/-- An element `Metric` of a message, and the two times at which the loop asks for the time. -/
structure MetricElement where
  mm : Metadata
  nowB : Timeval
  nowC : Timeval

/-- `getParameter("node_id")`, as the string it becomes. -/
def nodeIdOf (m : Metadata) : CString := (m.getParameter (lit "node_id")).getD []

variable (scan : CString → Option ℚ)

namespace ForwarderProphet

/-- `neighbor_ribs[id]` -/
def neighborRib (p : ForwarderProphet) (id : Nat) : ProphetRib :=
  (p.neighborRibs id).getD (fun _ => none)

/-- What `P_bc` is after `sscanf`: the number, or what the map held. -/
def receivedMetric (p : ForwarderProphet) (nodeB nodeC : Nat) (mm : Metadata) : ℚ :=
  (scan mm.getContent).getD ((p.neighborRib nodeB).metric nodeC).first

/-- `P_bc` in its place in the neighbour's table. -/
def putReceived (p : ForwarderProphet) (nodeB nodeC : Nat) (P_bc : ℚ) : ForwarderProphet :=
  { p with
    neighborRibs := Function.update p.neighborRibs nodeB
      (some ((p.neighborRib nodeB).put nodeC
        { (p.neighborRib nodeB).metric nodeC with first := P_bc })) }

/-- One turn of the loop in `newRoutingInformation`. -/
def newMetric (nodeB : Nat) (p : ForwarderProphet) (e : MetricElement) : ForwarderProphet :=
  let (nodeC, p) := p.idForString (nodeIdOf e.mm)
  let P_bc := p.receivedMetric scan nodeB nodeC e.mm
  let p := p.putReceived nodeB nodeC P_bc
  if nodeC = thisNodeId then p
  else
    let rib := (p.rib.age k e.nowB nodeB).age k e.nowC nodeC
    -- both are references into the table, so they see both agings
    let P_ab := (rib.metric nodeB).first
    let P_ac := (rib.metric nodeC).first
    { p with
      rib := rib.put nodeC { rib.metric nodeC with first := max P_ac (P_ab * P_bc * k.beta) } }

/-- The elements of a message with the times the loop sees. -/
def elements (m : Metadata) (clock : Nat → Timeval) : List MetricElement :=
  (m.getAll (lit "Metric")).mapIdx (fun i mm => ⟨mm, clock (2 * i), clock (2 * i + 1)⟩)

/-- The sender of a message, and the module with a table for it. -/
def sender (p : ForwarderProphet) (m : Metadata) : Nat × ForwarderProphet :=
  let (nodeB, p) := p.idForString (nodeIdOf m)
  (nodeB, { p with
    neighborRibs := Function.update p.neighborRibs nodeB (some (p.neighborRib nodeB)) })

/-- `newRoutingInformation`, of a message of a name. -/
def newRoutingInformation (p : ForwarderProphet) (name : CString) (m : Option Metadata)
    (clock : Nat → Timeval) : Bool × ForwarderProphet :=
  match m with
  | none => (false, p)
  | some m =>
      if name ≠ RoutingModule.prophet.getName then (false, p)
      else
        let (nodeB, p) := p.sender m
        (true, (elements m clock).foldl (newMetric k scan nodeB) p)

end ForwarderProphet

/-! ## Runs -/

/-- The calls that change the table. -/
inductive ProphetCall where
  | newNeighbor (neighbor : Node)
  | endNeighbor (neighbor : Node) (now : Timeval)
  | updateCurrentNeighbors (neighbors : List Node)
  | setSampling (sampling : Bool)
  | age (id : Nat) (now : Timeval)
  | addRoutingInformation (neighbors : List Node) (isApplication : Nat → Bool)
      (now : Nat → Timeval)
  | newRoutingInformation (name : CString) (m : Option Metadata) (clock : Nat → Timeval)

namespace ForwarderProphet

/-- One call. -/
def step (p : ForwarderProphet) : ProphetCall → ForwarderProphet
  | .newNeighbor neighbor => p.newNeighbor k neighbor
  | .endNeighbor neighbor now => p.endNeighbor k neighbor now
  | .updateCurrentNeighbors neighbors => p.updateCurrentNeighbors k neighbors
  | .setSampling sampling => { p with sampling := sampling }
  | .age id now => { p with rib := p.rib.age k now id }
  | .addRoutingInformation neighbors isApplication now =>
      p.addRoutingInformation k neighbors isApplication now
  | .newRoutingInformation name m clock => (p.newRoutingInformation k scan name m clock).2

end ForwarderProphet

/-! ## What the rules keep -/

/-- A number between 0 and 1. -/
def IsProbability (x : ℚ) : Prop := 0 ≤ x ∧ x ≤ 1

/-- Every metric of the table is a probability. -/
def ProphetRib.InRange (rib : ProphetRib) : Prop :=
  ∀ id metric, rib id = some metric → IsProbability metric.first

theorem IsProbability.mul {x y : ℚ} (hx : IsProbability x) (hy : IsProbability y) :
    IsProbability (x * y) :=
  ⟨mul_nonneg hx.1 hy.1, mul_le_one₀ hx.2 hy.1 hy.2⟩

theorem isProbability_zero : IsProbability 0 := ⟨le_refl 0, zero_le_one⟩

theorem isProbability_orZero {x : ℚ} (h : IsProbability x) : IsProbability (orZero x) := by
  unfold orZero
  split
  · exact isProbability_zero
  · exact h

variable {k}

theorem isProbability_agingFactor {seconds : Int} {factor : ℚ}
    (h : agingFactor k seconds = some factor) : IsProbability factor := by
  unfold agingFactor at h
  split at h
  · split at h
    · injection h with h
      rw [← h]
      split
      · exact ⟨zero_le_one, le_refl 1⟩
      · exact isProbability_zero
    · exact nomatch h
  · split at h
    · injection h with h
      rw [← h]
      exact ⟨pow_nonneg k.gamma_mem.1 _, pow_le_one₀ k.gamma_mem.1 k.gamma_mem.2⟩
    · exact nomatch h

theorem isProbability_ageMetric (now : Timeval) {metric : ProphetMetric}
    (h : IsProbability metric.first) : IsProbability (ageMetric k now metric).first := by
  unfold ageMetric
  split
  · exact h
  · split
    · exact h
    · next factor hfactor => exact isProbability_orZero (h.mul (isProbability_agingFactor hfactor))

/-- An encounter takes a mean of the old metric and `1 - delta`. -/
theorem isProbability_encounter {P : ℚ} (h : IsProbability P) : IsProbability (encounter k P) := by
  have hmean : encounter k P = (1 - k.pEncounter) * P + k.pEncounter * (1 - k.delta) := by
    unfold encounter
    ring
  have hweight : IsProbability (1 - k.pEncounter) :=
    ⟨sub_nonneg.mpr k.pEncounter_mem.2, sub_le_self 1 k.pEncounter_mem.1⟩
  have htop : IsProbability (1 - k.delta) :=
    ⟨sub_nonneg.mpr k.delta_mem.2, sub_le_self 1 k.delta_mem.1⟩
  rw [hmean]
  constructor
  · exact add_nonneg (hweight.mul h).1 (mul_nonneg k.pEncounter_mem.1 htop.1)
  · have hold := mul_le_of_le_one_right hweight.1 h.2
    have hnew := mul_le_of_le_one_right k.pEncounter_mem.1 htop.2
    linarith

namespace ProphetRib

theorem put_self (rib : ProphetRib) (id : Nat) (m : ProphetMetric) : rib.put id m id = some m :=
  Function.update_self ..

theorem InRange.metric {rib : ProphetRib} (h : rib.InRange) (id : Nat) :
    IsProbability (rib.metric id).first := by
  unfold ProphetRib.metric
  cases hm : rib id with
  | none => exact isProbability_zero
  | some m => exact h id m hm

theorem InRange.put {rib : ProphetRib} (h : rib.InRange) (id : Nat) {m : ProphetMetric}
    (hm : IsProbability m.first) : (rib.put id m).InRange := by
  intro id' m' hm'
  unfold ProphetRib.put at hm'
  by_cases hid : id' = id
  · rw [hid, Function.update_self, Option.some.injEq] at hm'
    rw [← hm']
    exact hm
  · rw [Function.update_of_ne hid] at hm'
    exact h id' m' hm'

theorem InRange.age {rib : ProphetRib} (h : rib.InRange) (now : Timeval) (id : Nat) :
    (rib.age k now id).InRange :=
  h.put id (isProbability_ageMetric now (h.metric id))

end ProphetRib

namespace ForwarderProphet

variable {p : ForwarderProphet}

/-- Every metric of the routing table is a probability. -/
def InRange (p : ForwarderProphet) : Prop := p.rib.InRange

@[simp] theorem rib_idForString (p : ForwarderProphet) (nodeid : CString) :
    (p.idForString nodeid).2.rib = p.rib := by
  unfold idForString
  split <;> rfl

@[simp] theorem neighborRib_idForString (p : ForwarderProphet) (nodeid : CString) :
    (p.idForString nodeid).2.neighborRib = p.neighborRib := by
  unfold idForString
  split <;> rfl

theorem InRange.meet (h : p.InRange) (neighbor : Node) : (p.meet k neighbor).InRange := by
  unfold InRange ForwarderProphet.meet
  simp only [rib_idForString]
  exact ProphetRib.InRange.put h _ (isProbability_encounter (ProphetRib.InRange.metric h _))

theorem InRange.newNeighbor (h : p.InRange) (neighbor : Node) :
    (p.newNeighbor k neighbor).InRange := by
  unfold ForwarderProphet.newNeighbor
  split
  · exact h
  · split
    · exact h
    · exact h.meet neighbor

theorem InRange.endNeighbor (h : p.InRange) (neighbor : Node) (now : Timeval) :
    (p.endNeighbor k neighbor now).InRange := by
  unfold ForwarderProphet.endNeighbor
  split
  · exact h
  · split
    · exact h
    · unfold InRange
      simp only [rib_idForString]
      refine ProphetRib.InRange.put h _ (isProbability_orZero ?_)
      exact (ProphetRib.InRange.metric h _).mul k.gamma_mem

theorem InRange.updateCurrentNeighbors : ∀ (neighbors : List Node) {p : ForwarderProphet},
    p.InRange → (p.updateCurrentNeighbors k neighbors).InRange
  | [], _, h => h
  | neighbor :: neighbors, p, h => by
      unfold ForwarderProphet.updateCurrentNeighbors
      rw [List.foldl_cons]
      by_cases hpeer : (isNeighbor neighbor && decide (neighbor.type = .peer)) = true
      · rw [if_pos hpeer]
        exact InRange.updateCurrentNeighbors neighbors (h.meet neighbor)
      · rw [if_neg hpeer]
        exact InRange.updateCurrentNeighbors neighbors h

theorem InRange.ageForUpdate (h : p.InRange) (isApplication : Nat → Bool) (now : Nat → Timeval) :
    (p.ageForUpdate k isApplication now).InRange := by
  intro id m hm
  obtain ⟨metric, hmetric, rfl⟩ := Option.map_eq_some_iff.mp hm
  have hrange := h id metric hmetric
  split
  · exact isProbability_ageMetric (now id) hrange
  · exact hrange

theorem InRange.addRoutingInformation (h : p.InRange) (neighbors : List Node)
    (isApplication : Nat → Bool) (now : Nat → Timeval) :
    (p.addRoutingInformation k neighbors isApplication now).InRange := by
  unfold ForwarderProphet.addRoutingInformation
  refine InRange.ageForUpdate ?_ isApplication now
  split
  · exact h.updateCurrentNeighbors neighbors
  · exact h

end ForwarderProphet

/-! ## The rule for messages -/

variable (k)

/-- The table with the two metrics that an element is about aged, the sender's first. -/
def MetricElement.agedRib (e : MetricElement) (nodeB : Nat) (p : ForwarderProphet) : ProphetRib :=
  (p.rib.age k e.nowB nodeB).age k e.nowC (p.idForString (nodeIdOf e.mm)).1

/-- The product that an element puts to the metric of the node it lists. -/
def MetricElement.product (nodeB : Nat) (p : ForwarderProphet) (e : MetricElement) : ℚ :=
  ((e.agedRib k nodeB p).metric nodeB).first *
    p.receivedMetric scan nodeB (p.idForString (nodeIdOf e.mm)).1 e.mm * k.beta

/--
An element of a message from a node is harmless if it lists this node, or the product of our metric
for the sender, the sender's for the listed node and `beta` is at most 1.
-/
def MetricElement.Harmless (nodeB : Nat) (p : ForwarderProphet) (e : MetricElement) : Prop :=
  (p.idForString (nodeIdOf e.mm)).1 = thisNodeId ∨ e.product k scan nodeB p ≤ 1

/-- The table after an element. -/
theorem rib_newMetric (nodeB : Nat) (p : ForwarderProphet) (e : MetricElement) :
    (p.newMetric k scan nodeB e).rib =
      if (p.idForString (nodeIdOf e.mm)).1 = thisNodeId then p.rib
      else
        (e.agedRib k nodeB p).put (p.idForString (nodeIdOf e.mm)).1
          { (e.agedRib k nodeB p).metric (p.idForString (nodeIdOf e.mm)).1 with
            first := max ((e.agedRib k nodeB p).metric (p.idForString (nodeIdOf e.mm)).1).first
              (e.product k scan nodeB p) } := by
  have hreceived : (p.idForString (nodeIdOf e.mm)).2.receivedMetric scan nodeB
      (p.idForString (nodeIdOf e.mm)).1 e.mm =
        p.receivedMetric scan nodeB (p.idForString (nodeIdOf e.mm)).1 e.mm := by
    unfold ForwarderProphet.receivedMetric
    rw [ForwarderProphet.neighborRib_idForString]
  unfold ForwarderProphet.newMetric MetricElement.product MetricElement.agedRib
  simp only [hreceived, ForwarderProphet.putReceived, ForwarderProphet.rib_idForString]
  split <;> rfl

variable {k}

/-- An element leaves the metrics in range exactly if it is harmless. -/
theorem inRange_newMetric_iff {nodeB : Nat} {p : ForwarderProphet} {e : MetricElement}
    (h : p.InRange) : (p.newMetric k scan nodeB e).InRange ↔ e.Harmless k scan nodeB p := by
  unfold ForwarderProphet.InRange MetricElement.Harmless
  rw [rib_newMetric]
  have haged : (e.agedRib k nodeB p).InRange :=
    (ProphetRib.InRange.age h e.nowB nodeB).age e.nowC _
  generalize (p.idForString (nodeIdOf e.mm)).1 = nodeC
  by_cases hthis : nodeC = thisNodeId
  · rw [if_pos hthis]
    exact ⟨fun _ => Or.inl hthis, fun _ => h⟩
  · rw [if_neg hthis]
    have hold := haged.metric nodeC
    constructor
    · intro hall
      exact Or.inr (le_trans (le_max_right _ _) (hall nodeC _ (ProphetRib.put_self ..)).2)
    · intro hharmless
      have hle := hharmless.resolve_left hthis
      exact haged.put nodeC ⟨le_trans hold.1 (le_max_left _ _), max_le hold.2 hle⟩

/-! ## Whole runs -/

variable (k)

/-- The states a call goes through: in a message, before and after each of its elements. -/
def ForwarderProphet.between (p : ForwarderProphet) : ProphetCall → List ForwarderProphet
  | .newRoutingInformation name (some m) clock =>
      if name ≠ RoutingModule.prophet.getName then [p]
      else
        let (nodeB, p) := p.sender m
        (ForwarderProphet.elements m clock).inits.map
          (fun pre => pre.foldl (ForwarderProphet.newMetric k scan nodeB) p)
  | call => [p.step k scan call]

/-- Every element of a message is harmless when its turn comes. Other calls need not be asked. -/
def ProphetCall.Harmless (p : ForwarderProphet) : ProphetCall → Prop
  | .newRoutingInformation name (some m) clock =>
      name = RoutingModule.prophet.getName →
        Guarded (fun q e => some (ForwarderProphet.newMetric k scan (p.sender m).1 q e))
          (fun q e => e.Harmless k scan (p.sender m).1 q) (p.sender m).2
          (ForwarderProphet.elements m clock)
  | _ => True

/-- The states of a message, by the elements that have had their turn. -/
theorem between_message (p : ForwarderProphet) {name : CString} (m : Metadata)
    (clock : Nat → Timeval) (hname : name = RoutingModule.prophet.getName) :
    p.between k scan (.newRoutingInformation name (some m) clock) =
      (ForwarderProphet.elements m clock).inits.map
        (fun pre => pre.foldl (ForwarderProphet.newMetric k scan (p.sender m).1) (p.sender m).2) :=
  if_neg (not_not_intro hname)

/-- A message for another module changes nothing. -/
theorem between_other (p : ForwarderProphet) {name : CString} (m : Metadata)
    (clock : Nat → Timeval) (hname : name ≠ RoutingModule.prophet.getName) :
    p.between k scan (.newRoutingInformation name (some m) clock) = [p] :=
  if_pos hname

theorem step_message (p : ForwarderProphet) (name : CString) (m : Metadata)
    (clock : Nat → Timeval) :
    p.step k scan (.newRoutingInformation name (some m) clock) =
      if name ≠ RoutingModule.prophet.getName then p
      else
        (ForwarderProphet.elements m clock).foldl
          (ForwarderProphet.newMetric k scan (p.sender m).1) (p.sender m).2 := by
  unfold ForwarderProphet.step ForwarderProphet.newRoutingInformation
  by_cases hname : name ≠ RoutingModule.prophet.getName
  · simp only [if_pos hname]
  · simp only [if_neg hname]

/-- The last state a call goes through is the one it leaves. -/
theorem step_mem_between (p : ForwarderProphet) (call : ProphetCall) :
    p.step k scan call ∈ p.between k scan call := by
  cases call with
  | newRoutingInformation name m clock =>
      cases m with
      | none => exact List.mem_singleton_self _
      | some m =>
          rw [step_message]
          by_cases hname : name = RoutingModule.prophet.getName
          · rw [if_neg (not_not_intro hname), between_message k scan p m clock hname]
            exact List.mem_map_of_mem ((List.mem_inits _ _).mpr (List.prefix_refl _))
          · rw [if_pos hname, between_other k scan p m clock hname]
            exact List.mem_singleton_self _
  | _ => exact List.mem_singleton_self _

variable {k}

/-- A message keeps the metrics in range exactly if each element is harmless in its turn. -/
theorem elements_inRange_iff {nodeB : Nat} {p : ForwarderProphet} (h : p.InRange)
    (es : List MetricElement) :
    (∀ q ∈ es.inits.map (fun pre => pre.foldl (ForwarderProphet.newMetric k scan nodeB) p),
        q.InRange) ↔
      Guarded (fun q e => some (ForwarderProphet.newMetric k scan nodeB q e))
        (fun q e => e.Harmless k scan nodeB q) p es := by
  have hkeep : ∀ (q : ForwarderProphet) (e : MetricElement), q.InRange →
      e.Harmless k scan nodeB q → (q.newMetric k scan nodeB e).InRange :=
    fun q e hq => (inRange_newMetric_iff scan hq).mpr
  have hback : ∀ (q : ForwarderProphet) (e : MetricElement), q.InRange →
      (q.newMetric k scan nodeB e).InRange → e.Harmless k scan nodeB q :=
    fun q e hq => (inRange_newMetric_iff scan hq).mp
  rw [← foldl_wanted_iff (fun _ hq => hq) hkeep hback es p h]
  simp only [List.mem_map, List.mem_inits, forall_exists_index, and_imp, forall_apply_eq_imp_iff₂]
  exact ⟨fun hall pre post heq => hall pre ⟨post, heq.symm⟩,
    fun hall pre ⟨post, heq⟩ => hall pre post heq.symm⟩

/-- A call other than a message keeps the metrics in range; a message does if it is harmless. -/
theorem between_inRange_iff {p : ForwarderProphet} (h : p.InRange) (call : ProphetCall) :
    (∀ q ∈ p.between k scan call, q.InRange) ↔ call.Harmless k scan p := by
  have hone : ∀ q : ForwarderProphet, q.InRange → ((∀ q' ∈ [q], q'.InRange) ↔ True) := by
    intro q hq
    simpa using hq
  cases call with
  | newNeighbor neighbor => exact hone _ (h.newNeighbor neighbor)
  | endNeighbor neighbor now => exact hone _ (h.endNeighbor neighbor now)
  | updateCurrentNeighbors neighbors => exact hone _ (h.updateCurrentNeighbors neighbors)
  | setSampling sampling => exact hone _ h
  | age id now => exact hone _ (ProphetRib.InRange.age h now id)
  | addRoutingInformation neighbors isApplication now =>
      exact hone _ (h.addRoutingInformation neighbors isApplication now)
  | newRoutingInformation name m clock =>
      cases m with
      | none => exact hone _ h
      | some m =>
          by_cases hname : name = RoutingModule.prophet.getName
          · have hsender : (p.sender m).2.InRange := by
              unfold ForwarderProphet.InRange ForwarderProphet.sender
              rw [ForwarderProphet.rib_idForString]
              exact h
            rw [between_message k scan p m clock hname, elements_inRange_iff scan hsender]
            exact ⟨fun hguard _ => hguard, fun hharmless => hharmless hname⟩
          · rw [between_other k scan p m clock hname]
            exact (hone p h).trans (iff_of_true trivial (fun heq => absurd heq hname))

theorem inRange_create (thisNode : Node) : (ForwarderProphet.create thisNode).InRange :=
  fun _ _ h => nomatch h

/--
**Metrics stay probabilities as long as no message is harmful.** Along every sequence of calls,
at any times, all metrics of the routing table lie between 0 and 1 at every moment exactly if
every element of every message is harmless when its turn comes.
-/
theorem metrics_inRange_iff (thisNode : Node) (calls : List ProphetCall) :
    (∀ pre call post, calls = pre ++ call :: post →
        ∀ q ∈ (pre.foldl (ForwarderProphet.step k scan) (.create thisNode)).between k scan call,
          q.InRange) ↔
      Guarded (fun p call => some (ForwarderProphet.step k scan p call))
        (fun p call => call.Harmless k scan p) (.create thisNode) calls :=
  foldl_between_iff (fun p call => step_mem_between k scan p call)
    (fun _ call h => between_inRange_iff scan h call) calls _ (inRange_create thisNode)

end Rules

/-- `sscanf` with `"%lf"`, on texts of digits only. -/
def scanDigits (text : CString) : Option ℚ :=
  if chars text ≠ [] ∧ (chars text).all Char.isDigit then
    some (Nat.ofDigitChars 10 (chars text) 0 : ℚ)
  else none

/-- A node of an id whose bytes are all the same. -/
def peerOf (byte : UInt8) : Node :=
  { Node.create with type := .peer, id := Vector.replicate 20 byte }

/-- A message that lists one metric for one node. -/
def metricMessage (sender listed : Node) (metric : CString) : Metadata :=
  ((Metadata.leaf []).setParameter (lit "node_id") (getIdStr sender)).addMetadata (lit "Metric")
    ((Metadata.leaf metric).setParameter (lit "node_id") (getIdStr listed))

/-- A node meets a neighbour, which says that it meets another node with probability 9. -/
def boastedCalls : List ProphetCall :=
  [.newNeighbor (peerOf 2),
    .newRoutingInformation (lit "Prophet") (some (metricMessage (peerOf 2) (peerOf 3) (lit "9")))
      (fun _ => seconds 1)]

/-- The node believes it: the metric it has for the other node is above 1. -/
theorem metric_above_one :
    ¬ (boastedCalls.foldl (ForwarderProphet.step .default scanDigits)
      (.create (peerOf 1))).InRange := by
  intro h
  have habove : 1 < ((boastedCalls.foldl (ForwarderProphet.step .default scanDigits)
      (.create (peerOf 1))).rib.metric 3).first := by
    decide +kernel
  exact absurd (ProphetRib.InRange.metric h 3).2 (not_le_of_gt habove)

end Encoders.Forwarding
