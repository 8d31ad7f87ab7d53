import CuckooFilter.Sequential
import CuckooFilter.LockFreeFind
import CuckooFilter.LockFreeMarks
import CuckooFilter.LockFreeProgress
import CuckooFilter.LockFreeCompletion
import CuckooFilter.LockFreeExact
import CuckooFilter.LockFreeSingle
import CuckooFilter.LockFreeRoom
import CuckooFilter.LockFreeOverflow
import CuckooFilter.FineGrainedFind
import CuckooFilter.LockFreePath
import CuckooFilter.LockFreeHazard
import CuckooFilter.PointerFields
import CuckooFilter.Jenkins
import CuckooFilter.SequentialCopies
import CuckooFilter.LockFreeNull
import CuckooFilter.LockFreeReclaim
import CuckooFilter.SequentialProgram
import CuckooFilter.FineGrainedRefinement
import CuckooFilter.LockFreeLinear
import CuckooFilter.LockFreePhases
import CuckooFilter.LockFreeLife
import CuckooFilter.LockFreeSequential
import CuckooFilter.FineGrainedSequential
