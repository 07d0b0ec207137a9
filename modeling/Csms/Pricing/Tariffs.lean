import Csms.Pricing.Bands

/-!
# Versioned station tariffs (`pricing/models.py`, `pricing/service.py`)
-/

namespace Csms.Pricing

/-- A tariff row with its band rows. Dates are local calendar dates of the station. -/
structure Tariff where
  id : ℕ
  station_id : ℕ
  effective_from : ℤ
  used_at : Option ℤ
  idle_rate_vnd_per_minute : ℤ
  grace_minutes : ℤ
  bands : List BandInput
  deriving DecidableEq, Repr

/-- `lay_bieu_gia_hieu_luc`: the version with the latest effective date not after the day. -/
def lay_bieu_gia_hieu_luc (tariffs : List Tariff) (station_id : ℕ) (ngay : ℤ) : Option Tariff :=
  ((tariffs.filter fun t => t.station_id = station_id ∧ t.effective_from ≤ ngay).insertionSort
    fun a b => b.effective_from ≤ a.effective_from).head?

theorem lay_bieu_gia_hieu_luc_mem {tariffs : List Tariff} {station_id : ℕ} {ngay : ℤ} {t : Tariff}
    (h : lay_bieu_gia_hieu_luc tariffs station_id ngay = some t) :
    t ∈ tariffs ∧ t.station_id = station_id ∧ t.effective_from ≤ ngay := by
  have := List.mem_of_mem_head? h
  simpa [List.mem_insertionSort] using this

/-- `danh_dau_bieu_gia_da_dung`: the first use is recorded, later ones change nothing. -/
def danh_dau_bieu_gia_da_dung (tariffs : List Tariff) (station_id tariff_id : ℕ) (now : ℤ) :
    List Tariff :=
  tariffs.map fun t =>
    if t.id = tariff_id ∧ t.station_id = station_id then
      { t with used_at := some (t.used_at.getD now) }
    else t

end Csms.Pricing
