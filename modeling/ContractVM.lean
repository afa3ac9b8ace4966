import ContractVM.Chain
import ContractVM.Code.Build
import ContractVM.Code.Written
import ContractVM.Json.Reader
import ContractVM.Proofs.Chain.Height
import ContractVM.Proofs.Chain.Settling
import ContractVM.Proofs.Exec.CaughtCall
import ContractVM.Proofs.Journal.RoundTrip
import ContractVM.Proofs.Machine.Admission
import ContractVM.Proofs.Machine.Binding
import ContractVM.Proofs.Machine.Caught
import ContractVM.Proofs.Machine.Consistent
import ContractVM.Proofs.Machine.Declared
import ContractVM.Proofs.Machine.Footprint
import ContractVM.Proofs.Machine.Gas
import ContractVM.Proofs.Machine.Locks
import ContractVM.Proofs.Machine.Oblivious
import ContractVM.Proofs.Machine.Reading
import ContractVM.Proofs.Machine.Root
import ContractVM.Proofs.Machine.Vetted
import ContractVM.Proofs.Mutex
import ContractVM.Proofs.Storage.Refinement
import ContractVM.Proofs.Storage.SlotKey
