import Csms.Billing.Conservation
import Csms.Billing.Rejections
import Csms.Billing.Display
import Csms.Billing.IdleLines
import Csms.Billing.Drift
import Csms.Billing.ExactReadings
import Csms.Accounting.Fallback
import Csms.Wallet.Settlement
import Csms.Wallet.Receipts
import Csms.Reservations.Protocol
import Csms.Accounts.Calls
import Csms.Pricing.History
import Csms.Stations.PowerSchedule
import Csms.Payments.Channels
import Csms.Charging.Invoices
import Csms.Charging.Records
import Csms.Charging.Units
import Csms.Charging.RecoveryOrder
import Csms.Charging.DriverStarts
import Csms.Charging.ClosureScan
import Csms.Charging.Reconciler
import Csms.Ocpp.AtMostOnce
import Csms.Ocpp.Frames
import Csms.Payments.Signature
import Csms.Power.Fairness
import Csms.Power.Plan
import Csms.Alerts.Rearming
import Csms.Reporting.Totals
import Csms.Charging.Agreement
import Csms.Power.Protocol
import Csms.Ocpp.Exchanges
import Csms.Ocpp.Commands
import Csms.Privacy.Redaction
