import Csms.Lib.DecimalText
import Csms.Lib.Points
import Csms.Charging.Models

/-!
# Meter samples (`charging/meter_units.py`, `store_samples` of `charging/service.py`)

Samples are normalized once, when they arrive. A live report is compared with the newest point of its
series, a late buffered one with its neighbours in the history.
-/

namespace Csms.Charging

open Tx DecimalText Points Outcome
open Csms.Billing (Measurand MeterSample)

/-! ## 1. `numeric_sample` -/

structure SamplePayload where
  value : String
  measurand : String := "Energy.Active.Import.Register"
  unit : Option String := none
  phase : String := ""
  location : String := "Outlet"
  raw : Bool := true
  deriving DecidableEq, Repr

structure MeterBlock where
  timestamp : ℤ
  sampledValue : List SamplePayload
  deriving DecidableEq, Repr

/-- The stored unit of a measurand, and the factor of each unit it may come in. -/
def UNITS : String → Option (String × List (String × ℕ))
  | "Energy.Active.Import.Register" => some ("Wh", [("Wh", 1), ("kWh", 1000)])
  | "Power.Active.Import" => some ("W", [("W", 1), ("kW", 1000)])
  | "Power.Offered" => some ("W", [("W", 1), ("kW", 1000)])
  | "Current.Import" => some ("A", [("A", 1)])
  | "Voltage" => some ("V", [("V", 1)])
  | "SoC" => some ("Percent", [("Percent", 1)])
  | "Frequency" => some ("Hertz", [("Hertz", 1)])
  | "Temperature" => some ("Celsius", [("Celsius", 1), ("Celcius", 1)])
  | _ => none

/-- `numeric_sample`. Only `InvalidOperation` is caught. -/
def numeric_sample (sample : SamplePayload) : Except ChargingError (Option (ℚ × String)) :=
  match UNITS sample.measurand with
  | none => .ok none
  | some (unit, conversions) =>
    if sample.raw = false then .ok none
    else
      let given := sample.unit.getD ""
      match conversions.lookup (if given = "" then unit else given) with
      | none => .ok none
      | some factor =>
        match ctxMul sample.value factor with
        | .error .invalidOperation => .ok none
        | .error .overflow => .error .decimalOverflow
        | .ok none => .ok none
        | .ok (some value) => if 10 ^ 18 ≤ |value| then .ok none else .ok (some (micro value, unit))

/-! ## 2. Series -/

/-- Measurand, phase and location. -/
abbrev Series := Measurand × String × String

def measurandOf (name : String) : Measurand :=
  if name = "Energy.Active.Import.Register" then .energyRegister else .other name

def SamplePayload.series (sample : SamplePayload) : Series :=
  (measurandOf sample.measurand, sample.phase, sample.location)

def sampleSeries (m : MeterSample) : Series := (m.measurand, m.phase, m.location)

/-- The register that is billed. -/
def outletRegister : Series := (.energyRegister, "", "Outlet")

/-- A stored value; only finite ones are stored. -/
def reading (m : MeterSample) : ℚ := m.value.getD 0

def newSample (c : Session) (timestamp : ℤ) (sample : SamplePayload) (value : ℚ) (unit : String) : MeterSample where
  id := 0
  session_id := c.id
  timestamp := timestamp
  measurand := measurandOf sample.measurand
  phase := sample.phase
  location := sample.location
  value := some value
  unit := unit

/-! ## 3. `store_samples` -/

/-- The state of the loop: the session with its new reasons, the newest point of each series, and the
rows to insert. -/
structure Ingest where
  session : Session
  latest : Series → Option (ℤ × ℚ)
  rows : List MeterSample

/-- The points of a series. -/
def history (samples : List MeterSample) (key : Series) : List (ℤ × ℚ) :=
  (samples.filter (sampleSeries · = key)).map fun m => (m.timestamp, reading m)

/-- The point a live sample is compared with. -/
def previousPoint (st : Ingest) (key : Series) : Option (ℤ × ℚ) :=
  match st.latest key with
  | some old => some old
  | none => if key = outletRegister then some (st.session.started_at, st.session.startWh) else none

/-- A new row, unless it is from before the session. -/
def Ingest.append (st : Ingest) (timestamp : ℤ) (sample : SamplePayload) (value : ℚ) (unit : String) : Ingest :=
  if timestamp < st.session.started_at then st
  else
    { st with
      latest := Function.update st.latest sample.series (some (timestamp, value))
      rows := st.rows ++ [newSample st.session timestamp sample value unit] }

/-- One sample of a live report. -/
def liveSample (timestamp : ℤ) (st : Ingest) (sample : SamplePayload) : Except ChargingError Ingest := do
  match ← numeric_sample sample with
  | none => return st
  | some (value, unit) =>
    match previousPoint st sample.series with
    | none => return st.append timestamp sample value unit
    | some (stamp, old) =>
      if timestamp < stamp then return st
      else if timestamp = stamp then
        return if value ≠ old then { st with session := review "conflicting_meter_timestamp" st.session } else st
      else
        let session := if sample.series.1 = .energyRegister ∧ value < old then
          review "meter_regression" st.session else st.session
        return { st with session }.append timestamp sample value unit

/-- `store_samples` on the samples the session has. -/
def liveSamples (stored : List MeterSample) (c : Session) (blocks : List MeterBlock) :
    Except ChargingError (Session × List MeterSample) := do
  let st ← blocks.foldlM (fun st block => block.sampledValue.foldlM (liveSample block.timestamp) st)
    ⟨c, fun key => latest (history stored key), []⟩
  return (st.session, st.rows)

/-! ## 4. `store_recovery_samples` -/

/-- The state of the loop: the session, the points of each series, and the rows to insert. -/
structure Backfill where
  session : Session
  points : Series → List (ℤ × ℚ)
  rows : List MeterSample

/-- Whether a register value is below its predecessor or above its successor. -/
def regresses (c : Session) (key : Series) (points : List (ℤ × ℚ)) (timestamp : ℤ) (value : ℚ) : Bool :=
  let previous := match before points timestamp with
    | some point => some point.2
    | none => if key = outletRegister then some c.startWh else none
  previous.any (value < ·) || (after points timestamp).any (·.2 < value)

/-- One sample of a late report. -/
def recoverySample (timestamp : ℤ) (st : Backfill) (sample : SamplePayload) :
    Except ChargingError Backfill := do
  match ← numeric_sample sample with
  | none => return st
  | some (value, unit) =>
    let points := st.points sample.series
    match points.find? (·.1 = timestamp) with
    | some point =>
      return if point.2 ≠ value then { st with session := review "conflicting_meter_timestamp" st.session } else st
    | none =>
      let session := if sample.series.1 = .energyRegister ∧
          regresses st.session sample.series points timestamp value then
        review "meter_regression" st.session else st.session
      return { session
               points := Function.update st.points sample.series (points ++ [(timestamp, value)])
               rows := st.rows ++ [newSample st.session timestamp sample value unit] }

/-- A block outside the session is skipped. -/
def recoveryBlock (st : Backfill) (block : MeterBlock) : Except ChargingError Backfill :=
  if block.timestamp < st.session.started_at ∨ ∃ e ∈ st.session.ended_at, e < block.timestamp then .ok st
  else block.sampledValue.foldlM (recoverySample block.timestamp) st

/-- `store_recovery_samples` on the samples the session has. -/
def recoverySamples (stored : List MeterSample) (c : Session) (blocks : List MeterBlock) :
    Except ChargingError (Session × List MeterSample) := do
  let sorted := blocks.insertionSort fun a b => a.timestamp ≤ b.timestamp
  let st ← sorted.foldlM recoveryBlock ⟨c, history stored, []⟩
  return (st.session, st.rows)

/-- `store_samples`, up to the insert. -/
def storeSamples (stored : List MeterSample) (c : Session) (blocks : List MeterBlock) (backfill : Bool) :
    Except ChargingError (Session × List MeterSample) :=
  if backfill then recoverySamples stored c blocks else liveSamples stored c blocks

/-! ## 5. The insert -/

/-- The rows with the next values of the sequence. -/
def numbered (seq : ℕ) (rows : List MeterSample) : List MeterSample :=
  (rows.zipIdx seq).map fun r => { r.1 with id := r.2 }

/-- `insert_meter_rows`: the column holds 24 digits, 6 of them decimals. -/
def insert_meter_rows (rows : List MeterSample) : ChargingTx Unit :=
  if rows = [] then return ()
  else do
    let s ← read
    raiseIf (∃ m ∈ rows, 10 ^ 18 ≤ |reading m|) .dataError
    raiseIf (¬ (s.meter_samples ++ rows).Pairwise fun a b => sampleKey a ≠ sampleKey b)
      (.integrityError "uq_charging_meter_sample")
    write fun s => { s with
      meter_samples := s.meter_samples ++ numbered s.sample_seq rows
      sample_seq := s.sample_seq + rows.length }

end Csms.Charging
