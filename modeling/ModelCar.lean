import ModelCar.Bench.Parts
import ModelCar.Build.Environment
import ModelCar.Drive.Pulse
import ModelCar.Link.Bridge
import ModelCar.Main
import ModelCar.Record.Calibration
import ModelCar.Record.Tuning
import ModelCar.Web.Page
import ModelCar.Proofs.Clock
import ModelCar.Proofs.Drive.Source
import ModelCar.Proofs.Number.Sign
import ModelCar.Proofs.Drive.Staleness
import ModelCar.Proofs.Drive.Actuators
import ModelCar.Proofs.Failsafe
import ModelCar.Proofs.Control.Requests
import ModelCar.Proofs.Control.Turn
import ModelCar.Proofs.Control.Start
import ModelCar.Proofs.Control.Course
import ModelCar.Proofs.Control.Deadline
import ModelCar.Proofs.Control.Completion
import ModelCar.Proofs.Control.Storage
import ModelCar.Proofs.Link.Bridge
import ModelCar.Proofs.Control.Tuning
import ModelCar.Proofs.Motion.Rest
import ModelCar.Proofs.Link.Room
import ModelCar.Proofs.Number.Exact
import ModelCar.Proofs.Link.Quantization
import ModelCar.Proofs.Link.Codec
import ModelCar.Proofs.Link.Noise
import ModelCar.Proofs.Link.Crc
import ModelCar.Proofs.Link.Corruption
import ModelCar.Proofs.Drive.Slew
import ModelCar.Proofs.Control.Output
import ModelCar.Proofs.Control.Setup
import ModelCar.Proofs.Control.Acceptance
import ModelCar.Proofs.Stabilization.Patch
import ModelCar.Proofs.Web.Clients
import ModelCar.Proofs.Web.Edits
import ModelCar.Proofs.Motion.Stages
import ModelCar.Proofs.Stabilization.Course
import ModelCar.Proofs.Stabilization.Authority
import ModelCar.Proofs.Control.Authority
import ModelCar.Proofs.Control.Conduct
import ModelCar.Proofs.Control.Priority
import ModelCar.Proofs.Stabilization.Idle
import ModelCar.Proofs.Control.Unassisted
import ModelCar.Proofs.Control.Alarm
import ModelCar.Proofs.Control.Reports
import ModelCar.Proofs.Motion.Elapsed
import ModelCar.Proofs.Number.Near
import ModelCar.Proofs.Motion.Constant
import ModelCar.Proofs.Motion.Resting
import ModelCar.Proofs.Motion.Unpushed
import ModelCar.Proofs.Control.Refusal
import ModelCar.Proofs.Control.Restoration
import ModelCar.Proofs.Link.Consistency
import ModelCar.Proofs.Motion.Statistics
import ModelCar.Proofs.Drive.Pulse
import ModelCar.Proofs.Link.Numbering
import ModelCar.Proofs.Link.Log
import ModelCar.Proofs.Motion.Push
import ModelCar.Proofs.Stabilization.Controller
import ModelCar.Proofs.Motion.LowPass
import ModelCar.Proofs.Motion.Attitude
import ModelCar.Proofs.Record.Format
import ModelCar.Proofs.Pacing
