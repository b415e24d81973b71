import RusticOs.Proofs.History7
import RusticOs.Proofs.RoundTrip7
import RusticOs.Proofs.Lookups7
import RusticOs.Proofs.Grant
import RusticOs.Proofs.Delivery
import RusticOs.Proofs.Requests
import RusticOs.Proofs.Room
import RusticOs.Proofs.Elf
import RusticOs.Proofs.Planner7
import RusticOs.Proofs.Agreement7
import RusticOs.Proofs.Streamed7
import RusticOs.Proofs.Space6
import RusticOs.Proofs.Frames
import RusticOs.Proofs.Text
import RusticOs.Proofs.Checks7
import RusticOs.Proofs.Reachable7
import RusticOs.Proofs.Shell
import RusticOs.Proofs.Process
