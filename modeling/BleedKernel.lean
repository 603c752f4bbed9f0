import BleedKernel.Proofs.Ownership
import BleedKernel.Proofs.PipeFifo
import BleedKernel.Proofs.EpollGraph
import BleedKernel.Proofs.EpollStale
import BleedKernel.Proofs.EpollEdge
import BleedKernel.Proofs.Stopped
import BleedKernel.Proofs.Kill
import BleedKernel.Proofs.BigLock
import BleedKernel.Proofs.Fragments
import BleedKernel.Proofs.TcpReceive
import BleedKernel.Proofs.TcpWindow
import BleedKernel.Proofs.TcpLifetimes
import BleedKernel.Proofs.Appends
import BleedKernel.Proofs.TtyInput
import BleedKernel.Proofs.TtyDecoding
import BleedKernel.Proofs.UnixSpin
import BleedKernel.Proofs.Gather
import BleedKernel.Proofs.ShortNames
import BleedKernel.Proofs.KmallocSize
import BleedKernel.Proofs.ChainCycles
import BleedKernel.Proofs.Eventfd
import BleedKernel.Proofs.Memmove
import BleedKernel.Proofs.DirNames
