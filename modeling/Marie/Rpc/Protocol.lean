-- The messages of a remote call: the call, the acknowledgement and the reply.
import Mathlib.Data.List.Basic
import Marie.Post

namespace marie.rpc

open post (PostError)

structure RpcId where
  id : Nat
deriving DecidableEq, Hashable

inductive RpcError where
  | DeserializeError (err : String)
  | PostError (err : PostError)
  | TimeOut
  | NoExecutorFound (name : String)
  | Shutdown
deriving DecidableEq

structure RpcCall where
  id : RpcId
  name : String
  args : Value

structure RpcReply where
  id : RpcId
  result : Except RpcError Value

structure RpcAck where
  id : RpcId

inductive RpcMessage where
  | Call (call : RpcCall)
  | Ack (ack : RpcAck)
  | Reply (reply : RpcReply)

def RpcMessage.CHANNEL : String := "/marie/rpc"

end marie.rpc
