import InCircuit.CommandLine.Commands
import InCircuit.Image.Listing
import InCircuit.Main
import InCircuit.Proofs.Buffers
import InCircuit.Proofs.CommandLine.Reading
import InCircuit.Proofs.CommandLine.Tracing
import InCircuit.Proofs.CommandLine.Writing
import InCircuit.Proofs.Emulator.Access
import InCircuit.Proofs.Emulator.Checked
import InCircuit.Proofs.Emulator.Unlocking
import InCircuit.Proofs.Halting
import InCircuit.Proofs.Image.Bounds
import InCircuit.Proofs.Image.Writes
import InCircuit.Proofs.IntelHex.Decoding
import InCircuit.Proofs.IntelHex.Faults
import InCircuit.Proofs.IntelHex.Layouts
import InCircuit.Proofs.Programmer
import InCircuit.Proofs.Sessions.Agreement
import InCircuit.Proofs.Sessions.ConfigReading
import InCircuit.Proofs.Sessions.EepromReading
import InCircuit.Proofs.Sessions.EepromWriting
import InCircuit.Proofs.Sessions.Halting
import InCircuit.Proofs.Sessions.Identification
import InCircuit.Proofs.Sessions.Pacing
import InCircuit.Proofs.Sessions.Progress
import InCircuit.Proofs.Sessions.Refusal
import InCircuit.Proofs.Sessions.Undisturbed
import InCircuit.Proofs.Sessions.Verifying
import InCircuit.Proofs.Sessions.Writing
import InCircuit.Proofs.Tracking
import InCircuit.TableMemory
