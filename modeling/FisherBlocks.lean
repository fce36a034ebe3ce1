import FisherBlocks.Damping
import FisherBlocks.Blocks
import FisherBlocks.Kronecker
import FisherBlocks.Towers
import FisherBlocks.Series
import FisherBlocks.SeriesAdjoint
import FisherBlocks.Depthwise
import FisherBlocks.Constructors
import FisherBlocks.MultiUse
import FisherBlocks.Registrations
import FisherBlocks.Lifecycle
