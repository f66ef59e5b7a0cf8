import SpringDome.Lib.Machine
import SpringDome.Lib.RedisStore
import SpringDome.Redis.TokenTheorems
import SpringDome.Redis.TokenRuns
import SpringDome.Redis.PoolTheorems
import SpringDome.Redis.ConnectionThreads
import SpringDome.Redis.WorkerQueue
import SpringDome.Lib.Linearizability
import SpringDome.Redis.TokenClients
import SpringDome.Net.HttpClientUtil
import SpringDome.Net.HttpThreads
import SpringDome.Mapper.TextTheorems
import SpringDome.Mapper.ExampleFilters
import SpringDome.Mapper.WellFormed
import SpringDome.Redis.HashTheorems
import SpringDome.Redis.Scores
import SpringDome.Lib.SqlSelect
import SpringDome.Mapper.SelectWindow
import SpringDome.Mapper.ClearedExamples
import SpringDome.Lib.Charset
import SpringDome.Net.RequestBody
import SpringDome.Net.SendGet
import SpringDome.Lib.FileTree
import SpringDome.Protobuf.GenerareClass
import SpringDome.Protobuf.UserProtoRuns
import SpringDome.Lib.Programs
import SpringDome.Protobuf.CodedInputRuns
import SpringDome.Protobuf.WireAgreement
import SpringDome.Mapper.UserTableTheorems
import SpringDome.Controller.ApiRuns
import SpringDome.Redis.Ranks
import SpringDome.Controller.PostedRequests
import SpringDome.Lib.ByteStream
import SpringDome.Protobuf.ZeroCopyNesting
