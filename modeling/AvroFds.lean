import AvroFds.Schema
import AvroFds.Wire
import AvroFds.Generic
import AvroFds.Buffer
import AvroFds.InternalDecoder
import AvroFds.SparseRecord
import AvroFds.Plan
import AvroFds.Decode
import AvroFds.Projection
import AvroFds.Lifecycle
import AvroFds.Growth
import AvroFds.Record
import AvroFds.Nullable
