import Noriko.Def
import Noriko.Lib.Run
import Noriko.Lib.Loop
import Noriko.Alloc.Pool
import Noriko.Alloc.Blocks
import Noriko.Alloc.Context
import Noriko.Alloc.Safety
import Noriko.Alloc.Table
import Noriko.Dstruct.Vector
import Noriko.Dstruct.VectorCap
import Noriko.Dstruct.String
import Noriko.Application
import Noriko.Bmp.Bitmap
import Noriko.Bmp.Load
import Noriko.Bmp.RoundTrip
import Noriko.Dstruct.Htable
import Noriko.Lib.Sim
import Noriko.Dstruct.HtableProbe
import Noriko.Dstruct.HtableMap
import Noriko.Dstruct.VectorOwn
import Noriko.Dstruct.HtableOwn
import Noriko.Lib.RefCount
import Noriko.Om.Runtime
import Noriko.Om.CreateInstance
import Noriko.Om.Rollback
import Noriko.Om.ClassReg
import Noriko.Om.CompReg
import Noriko.Lib.Mutex
import Noriko.Log.Log
import Noriko.Layer.Layer
import Noriko.Locks
import Noriko.Log.Table
import Noriko.Layer.Dispatch
import Noriko.Uuid
import Noriko.Lib.Ledger
import Noriko.Path
import Noriko.Db.Execute
import Noriko.Db.Handle
import Noriko.Db.Store
import Noriko.Db.Statement
import Noriko.Asset
import Noriko.Io
import Noriko.Gdi
import Noriko.Env.Parse
import Noriko.Env.Store
import Noriko.Dstruct.HtableClear
import Noriko.Dstruct.HtableOffset
import Noriko.Alloc.Locate
import Noriko.Bmp.Fill
import Noriko.Lib.Rearrange
import Noriko.Sort.Split
import Noriko.Sort.Quicksort
import Noriko.Dstruct.StringContent
import Noriko.Dstruct.Utf8
import Noriko.Dstruct.StringView
import Noriko.PathBuild
import Noriko.Dstruct.HtableBulk
import Noriko.Dstruct.VectorReverse
import Noriko.Dstruct.VectorInsert
import Noriko.Dstruct.VectorScan
import Noriko.Dstruct.VectorErase
import Noriko.Lib.CString
import Noriko.Lib.Strtod
import Noriko.ViewCompare
import Noriko.Dstruct.HtableHash
import Noriko.Dstruct.Create
import Noriko.Om.Classes
import Noriko.Layer.Push
import Noriko.Env.Number
import Noriko.Env.Grammar
import Noriko.Env.Bounds
import Noriko.Env.Query
import Noriko.RawTrim
import Noriko.UuidFields
import Noriko.UuidSafety
import Noriko.Prng
import Noriko.Lib.Float
import Noriko.Variant
import Noriko.Db.Bind
import Noriko.Db.BindNumber
import Noriko.Centre
import Noriko.MainLoop
import Noriko.Timer
import Noriko.World
import Noriko.Lib.While
import Noriko.ProjectManager
import Noriko.Explorer
import Noriko.Lib.Rounding
import Noriko.Movement
import Noriko.Input
import Noriko.Window.Event
import Noriko.Window.Modes
import Noriko.Window.Flags
import Noriko.Window.Messages
import Noriko.ProjectFile
import Noriko.GdiDraw
import Noriko.Frame
import Noriko.Sort.Arrangement
